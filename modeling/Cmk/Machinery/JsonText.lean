import Cmk.Machinery.CpuList
import Cmk.Machinery.Json

/-!
# Machinery/JsonText — JSON values as text

`dumps` writes a value in ASCII, `, ` and `: ` between items; `parse` reads text back in one of two
spellings of the three constants, JSON's or the interpreter's own.  What is written reads back
in JSON's (`loads_dumps`); in the other it does exactly when no constant is in it
(`literalEval?_dumps`).
-/

namespace Machinery

namespace JsonValue

/-! ## Writing -/

/-- Four hexadecimal digits. -/
def hexFour (n : ℕ) : List Char :=
  [n / 4096 % 16, n / 256 % 16, n / 16 % 16, n % 16].map Nat.digitChar

/-- A code unit as an escape. -/
def unitText (n : ℕ) : List Char := '\\' :: 'u' :: hexFour n

/-- The two code units of a character beyond the basic plane. -/
def highUnit (c : Char) : ℕ := 0xd800 + (c.toNat - 0x10000) / 0x400

def lowUnit (c : Char) : ℕ := 0xdc00 + (c.toNat - 0x10000) % 0x400

/-- The characters with a short escape, and its letter. -/
def shortEscapes : List (Char × Char) :=
  [('"', '"'), ('\\', '\\'), ('\n', 'n'), ('\r', 'r'), ('\t', 't'), ('\x08', 'b'), ('\x0c', 'f')]

/-- A character inside of quotes; one beyond the basic plane is two code units. -/
def charText (c : Char) : List Char :=
  match shortEscapes.find? fun e => e.1 = c with
  | some e => ['\\', e.2]
  | none =>
    if ' ' ≤ c ∧ c ≤ '~' then [c]
    else if c.toNat < 0x10000 then unitText c.toNat
    else unitText (highUnit c) ++ unitText (lowUnit c)

def stringText (s : String) : List Char := '"' :: (s.toList.flatMap charText ++ ['"'])

mutual

/-- The text of a value. -/
def text : JsonValue → List Char
  | null => "null".toList
  | bool true => "true".toList
  | bool false => "false".toList
  | num n => (toString n).toList
  | str s => stringText s
  | arr items => '[' :: (itemsText items ++ [']'])
  | obj members => '{' :: (membersText members ++ ['}'])

/-- The items with `, ` between them. -/
def itemsText : List JsonValue → List Char
  | [] => []
  | [x] => text x
  | x :: y :: xs => text x ++ ',' :: ' ' :: itemsText (y :: xs)

/-- The members with `, ` between them. -/
def membersText : List (String × JsonValue) → List Char
  | [] => []
  | [(key, x)] => stringText key ++ ':' :: ' ' :: text x
  | (key, x) :: m :: ms =>
    stringText key ++ ':' :: ' ' :: (text x ++ ',' :: ' ' :: membersText (m :: ms))

end

/-- `json.dumps`. -/
def dumps (j : JsonValue) : String := String.ofList j.text

/-! ## Reading -/

/-- The white space between tokens. -/
def isSep (c : Char) : Bool := c = ' ' || c = '\t' || c = '\n' || c = '\r'

def skip (cs : List Char) : List Char := cs.dropWhile isSep

/-- What is behind a token, where it comes next. -/
def behind? (token : Char) (cs : List Char) : Option (List Char) :=
  if (skip cs).head? = some token then some (skip cs).tail else none

/-- The number of the first four characters. -/
def readUnit (cs : List Char) : Option (ℕ × List Char) :=
  match cs with
  | a :: b :: c :: d :: rest =>
    ([a, b, c, d].mapM hexDigit?).map fun ds => (ds.foldl (fun n d => 16 * n + d) 0, rest)
  | _ => none

/-- The character of an escape behind `\u`: two code units where the first is a high one. -/
def readEscape (cs : List Char) : Option (Char × List Char) :=
  (readUnit cs).bind fun (hi, rest) =>
    if 0xd800 ≤ hi ∧ hi < 0xdc00 then
      match rest with
      | '\\' :: 'u' :: rest => (readUnit rest).bind fun (lo, rest) =>
        if 0xdc00 ≤ lo ∧ lo < 0xe000 then
          some (Char.ofNat (0x10000 + (hi - 0xd800) * 0x400 + (lo - 0xdc00)), rest)
        else none
      | _ => none
    else if 0xdc00 ≤ hi ∧ hi < 0xe000 then none
    else some (Char.ofNat hi, rest)

def shortEscape? (letter : Char) : Option Char :=
  if letter = '/' then some '/' else (shortEscapes.find? fun e => e.2 = letter).map Prod.fst

/-- One character inside of quotes. -/
def readChar (cs : List Char) : Option (Char × List Char) :=
  match cs with
  | [] => none
  | c :: rest =>
    if c = '\\' then
      match rest with
      | [] => none
      | e :: rest => if e = 'u' then readEscape rest else (shortEscape? e).map fun c => (c, rest)
    else if c < ' ' then none
    else some (c, rest)

/-- The characters up to the closing quote, of which there are at most so many. -/
def readChars : ℕ → List Char → Option (List Char × List Char)
  | 0, _ => none
  | fuel + 1, cs =>
    if cs.head? = some '"' then some ([], cs.tail)
    else (readChar cs).bind fun (c, rest) =>
      (readChars fuel rest).map fun (read, rest) => (c :: read, rest)

/-- The string behind an opening quote. -/
def readString (cs : List Char) : Option (String × List Char) :=
  (readChars (cs.length + 1) cs).map fun (read, rest) => (String.ofList read, rest)

/-- An integer: no zeros in front. -/
def readNat (cs : List Char) : Option (ℕ × List Char) :=
  let digits := cs.takeWhile Char.isDigit
  if digits = [] ∨ (digits.head? = some '0' ∧ digits ≠ ['0']) then none
  else some (Nat.ofDigitChars 10 digits 0, cs.dropWhile Char.isDigit)

def readNum (cs : List Char) : Option (JsonValue × List Char) :=
  if cs.head? = some '-' then (readNat cs.tail).map fun (n, rest) => (num (-(n : ℤ)), rest)
  else (readNat cs).map fun (n, rest) => (num n, rest)

/-- How the three constants are spelled. -/
inductive Spelling
  | json
  | python
deriving DecidableEq

def Spelling.constants : Spelling → List (List Char × JsonValue)
  | json => [("null".toList, .null), ("true".toList, .bool true), ("false".toList, .bool false)]
  | python => [("None".toList, .null), ("True".toList, .bool true), ("False".toList, .bool false)]

def readConstant (names : List (List Char × JsonValue)) (cs : List Char) :
    Option (JsonValue × List Char) :=
  names.findSome? fun name =>
    if name.1 <+: cs then some (name.2, cs.drop name.1.length) else none

mutual

/-- A value, nested at most so deep, and what is behind it. -/
def parse (names : Spelling) : ℕ → List Char → Option (JsonValue × List Char)
  | 0, _ => none
  | fuel + 1, cs =>
    match behind? '[' cs with
    | some rest =>
      match behind? ']' rest with
      | some rest => some (arr [], rest)
      | none => (parseItems names fuel rest).map fun (xs, rest) => (arr xs, rest)
    | none =>
      match behind? '{' cs with
      | some rest =>
        match behind? '}' rest with
        | some rest => some (obj [], rest)
        | none => (parseMembers names fuel rest).map fun (ms, rest) =>
          (obj (ms.foldl (fun ms m => setMember m.1 m.2 ms) []), rest)
      | none =>
        match behind? '"' cs with
        | some rest => (readString rest).map fun (s, rest) => (str s, rest)
        | none => (readConstant names.constants (skip cs)).orElse fun _ => readNum (skip cs)

/-- Items up to the closing bracket. -/
def parseItems (names : Spelling) : ℕ → List Char → Option (List JsonValue × List Char)
  | 0, _ => none
  | fuel + 1, cs => (parse names fuel cs).bind fun (x, rest) =>
    match behind? ',' rest with
    | some rest => (parseItems names fuel rest).map fun (xs, rest) => (x :: xs, rest)
    | none => (behind? ']' rest).map fun rest => ([x], rest)

/-- Members up to the closing brace. -/
def parseMembers (names : Spelling) : ℕ → List Char → Option (List (String × JsonValue) × List Char)
  | 0, _ => none
  | fuel + 1, cs => (behind? '"' cs).bind fun rest => (readString rest).bind fun (key, rest) =>
    (behind? ':' rest).bind fun rest => (parse names fuel rest).bind fun (x, rest) =>
      match behind? ',' rest with
      | some rest => (parseMembers names fuel rest).map fun (ms, rest) => ((key, x) :: ms, rest)
      | none => (behind? '}' rest).map fun rest => ([(key, x)], rest)

end

/-- A whole text: a value between white space. -/
def parseText (names : Spelling) (cs : List Char) : Option JsonValue :=
  (parse names (cs.length + 1) cs).bind fun (x, rest) => if skip rest = [] then some x else none

/-- `json.loads`. -/
def loads? (s : String) : Option JsonValue := parseText .json s.toList

/-- The first line starts with blanks. -/
def indented (s : String) : Bool :=
  (s.toList.takeWhile isSep).getLast?.any fun c => c = ' ' || c = '\t'

/-- `ast.literal_eval`, on the literals that JSON has. -/
def literalEval? (s : String) : Option JsonValue :=
  if indented s then none else parseText .python s.toList

/-! ## Tokens -/

theorem skip_cons {c : Char} (h : isSep c = false) (cs : List Char) : skip (c :: cs) = c :: cs := by
  rw [skip, List.dropWhile_cons_of_neg (by simp [h])]

theorem behind?_self {c : Char} (h : isSep c = false) (cs : List Char) :
    behind? c (c :: cs) = some cs := by
  rw [behind?, skip_cons h]
  exact if_pos rfl

theorem behind?_of_ne {c token : Char} (h : isSep c = false) (hne : c ≠ token) (cs : List Char) :
    behind? token (c :: cs) = none := by
  rw [behind?, skip_cons h]
  exact if_neg fun heq => hne (Option.some.inj heq)

theorem behind?_space (token : Char) (cs : List Char) :
    behind? token (' ' :: cs) = behind? token cs := rfl

/-! ## Strings -/

theorem readUnit_hexFour {n : ℕ} (h : n < 0x10000) (rest : List Char) :
    readUnit (hexFour n ++ rest) = some (n, rest) := by
  have hdigit : ∀ d, hexDigit? (Nat.digitChar (d % 16)) = some (d % 16) := fun d => by
    have hall : ∀ d < 16, hexDigit? (Nat.digitChar d) = some d := by decide
    exact hall _ (Nat.mod_lt d (by decide))
  have hvalue : 16 * (16 * (16 * (16 * 0 + n / 4096 % 16) + n / 256 % 16) + n / 16 % 16) + n % 16 =
      n := by omega
  simp only [hexFour, List.map_cons, List.map_nil, List.cons_append, List.nil_append, readUnit,
    List.mapM_cons, List.mapM_nil, hdigit, Option.pure_def, Option.bind_eq_bind, Option.bind_some,
    Option.map_some, List.foldl_cons, List.foldl_nil, hvalue]

theorem readEscape_unit {c : Char} (h : c.toNat < 0x10000) (rest : List Char) :
    readEscape (hexFour c.toNat ++ rest) = some (c, rest) := by
  have hvalid : c.toNat < 0xd800 ∨ 0xdfff < c.toNat := by
    rcases c.valid with hv | ⟨hv, -⟩
    · exact .inl hv
    · exact .inr hv
  rw [readEscape, readUnit_hexFour h, Option.bind_some]
  dsimp only
  rw [if_neg (by omega), if_neg (by omega), Char.ofNat_toNat]

/-- The two units give the character back. -/
theorem units_spec {c : Char} (h : 0x10000 ≤ c.toNat) :
    (0xd800 ≤ highUnit c ∧ highUnit c < 0xdc00) ∧ (0xdc00 ≤ lowUnit c ∧ lowUnit c < 0xe000) ∧
      0x10000 + (highUnit c - 0xd800) * 0x400 + (lowUnit c - 0xdc00) = c.toNat := by
  have hmax : c.toNat < 0x110000 := by
    rcases c.valid with hv | ⟨-, hv⟩
    · exact hv.trans (by decide)
    · exact hv
  rw [highUnit, lowUnit]
  omega

theorem readEscape_pair {c : Char} (h : 0x10000 ≤ c.toNat) (rest : List Char) :
    readEscape (hexFour (highUnit c) ++ (unitText (lowUnit c) ++ rest)) = some (c, rest) := by
  obtain ⟨hhigh, hlow, hback⟩ := units_spec h
  rw [readEscape, readUnit_hexFour (by omega), Option.bind_some]
  dsimp only [unitText, List.cons_append]
  rw [if_pos hhigh]
  change (readUnit (hexFour _ ++ rest)).bind _ = _
  rw [readUnit_hexFour (by omega), Option.bind_some]
  dsimp only
  rw [if_pos hlow, hback, Char.ofNat_toNat]

theorem readChar_short {e : Char × Char} (he : e ∈ shortEscapes) (rest : List Char) :
    readChar ('\\' :: e.2 :: rest) = some (e.1, rest) := by
  have hall : ∀ e ∈ shortEscapes, e.2 ≠ 'u' ∧ shortEscape? e.2 = some e.1 := by decide
  rw [readChar, if_pos rfl, if_neg (hall e he).1, (hall e he).2, Option.map_some]

theorem readChar_plain {c : Char} (hslash : c ≠ '\\') (h : ' ' ≤ c) (rest : List Char) :
    readChar (c :: rest) = some (c, rest) := by
  have hnot : ¬ c < ' ' := Char.not_lt.mpr h
  rw [readChar.eq_def]
  dsimp only
  rw [if_neg hslash, if_neg hnot]

theorem readChar_unit (rest : List Char) : readChar ('\\' :: 'u' :: rest) = readEscape rest := by
  rw [readChar, if_pos rfl, if_pos rfl]

/-- **A character inside of quotes reads back**, and does not close them. -/
theorem readChar_charText (c : Char) (rest : List Char) :
    readChar (charText c ++ rest) = some (c, rest) ∧ (charText c ++ rest).head? ≠ some '"' := by
  rw [charText]
  split
  · rename_i e hfound
    obtain rfl : e.1 = c := by simpa using List.find?_some hfound
    exact ⟨readChar_short (List.mem_of_find?_eq_some hfound) rest, by simp⟩
  · rename_i hnone
    have hno := List.find?_eq_none.mp hnone
    split_ifs with hplain hunit
    · have hquote : c ≠ '"' := by
        rintro rfl
        exact hno ('"', '"') (by decide) (by decide)
      have hslash : c ≠ '\\' := by
        rintro rfl
        exact hno ('\\', '\\') (by decide) (by decide)
      exact ⟨readChar_plain hslash hplain.1 rest, by simpa using hquote⟩
    · refine ⟨?_, by simp [unitText]⟩
      rw [unitText, List.cons_append, List.cons_append, readChar_unit, readEscape_unit hunit]
    · refine ⟨?_, by simp [unitText]⟩
      rw [List.append_assoc, unitText, List.cons_append, List.cons_append, readChar_unit]
      exact readEscape_pair (Nat.not_lt.mp hunit) rest

theorem readChars_flatMap (cs rest : List Char) {fuel : ℕ} (h : cs.length < fuel) :
    readChars fuel (cs.flatMap charText ++ '"' :: rest) = some (cs, rest) := by
  induction cs generalizing fuel with
  | nil =>
    obtain ⟨fuel, rfl⟩ := Nat.exists_eq_succ_of_ne_zero (by omega : fuel ≠ 0)
    rfl
  | cons c cs ih =>
    obtain ⟨fuel, rfl⟩ := Nat.exists_eq_succ_of_ne_zero (by omega : fuel ≠ 0)
    obtain ⟨hread, hopen⟩ := readChar_charText c (cs.flatMap charText ++ '"' :: rest)
    rw [List.flatMap_cons, List.append_assoc, readChars, if_neg hopen, hread, Option.bind_some]
    dsimp only
    rw [ih (by simpa using h), Option.map_some]

theorem length_le_flatMap_charText (cs : List Char) :
    cs.length ≤ (cs.flatMap charText).length := by
  have hone : ∀ c, 1 ≤ (charText c).length := fun c => by
    rw [charText]
    split
    · simp
    · split_ifs <;> simp [unitText]
  induction cs with
  | nil => exact le_rfl
  | cons c cs ih =>
    rw [List.flatMap_cons, List.length_append, List.length_cons]
    have := hone c
    omega

/-- **A string reads back.** -/
theorem readString_stringText (s : String) (rest : List Char) :
    readString ((stringText s ++ rest).tail) = some (s, rest) := by
  rw [stringText, List.cons_append, List.tail_cons, List.append_assoc, List.singleton_append,
    readString, readChars_flatMap, Option.map_some]
  · dsimp only
    rw [String.ofList_toList]
  have := length_le_flatMap_charText s.toList
  rw [List.length_append]
  omega

theorem behind?_stringText (s : String) (rest : List Char) :
    behind? '"' (stringText s ++ rest) = some (stringText s ++ rest).tail :=
  behind?_self (by decide) _

/-! ## Numbers -/

theorem eq_zero_of_head?_toDigits {n : ℕ} (h : (Nat.toDigits 10 n).head? = some '0') : n = 0 := by
  induction n using Nat.strong_induction_on with
  | _ n ih =>
    by_cases hn : n < 10
    · have hall : ∀ n < 10, Nat.digitChar n = '0' → n = 0 := by decide
      rw [Nat.toDigits_of_lt_base hn] at h
      exact hall n hn (Option.some.inj h)
    · rw [Nat.toDigits_of_base_le (by decide) (by omega),
        List.head?_append_of_ne_nil _ Nat.toDigits_ne_nil] at h
      have := ih (n / 10) (by omega) h
      omega

/-- What is behind a number is no digit. -/
def Ends (rest : List Char) : Prop := ∀ c ∈ rest.head?, c.isDigit = false

/-- **A natural number reads back.** -/
theorem readNat_toDigits (n : ℕ) {rest : List Char} (h : Ends rest) :
    readNat (Nat.toDigits 10 n ++ rest) = some (n, rest) := by
  have hdigits : ∀ c ∈ Nat.toDigits 10 n, c.isDigit := fun c hc =>
    Nat.isDigit_of_mem_toDigits (by decide) (by decide) hc
  have hrest : rest.takeWhile Char.isDigit = [] ∧ rest.dropWhile Char.isDigit = rest := by
    cases rest with
    | nil => exact ⟨rfl, rfl⟩
    | cons c cs =>
      have hc := h c rfl
      rw [List.takeWhile_cons_of_neg (by simp [hc]), List.dropWhile_cons_of_neg (by simp [hc])]
      exact ⟨rfl, rfl⟩
  have htake : (Nat.toDigits 10 n ++ rest).takeWhile Char.isDigit = Nat.toDigits 10 n := by
    rw [List.takeWhile_append_of_pos hdigits, hrest.1, List.append_nil]
  have hdrop : (Nat.toDigits 10 n ++ rest).dropWhile Char.isDigit = rest := by
    rw [List.dropWhile_append_of_pos hdigits, hrest.2]
  rw [readNat, htake, hdrop, if_neg, Nat.ofDigitChars_ten_toDigits]
  rintro (hnil | ⟨hzero, hne⟩)
  · exact Nat.toDigits_ne_nil hnil
  · rw [eq_zero_of_head?_toDigits hzero] at hne
    exact hne rfl

/-- **A number reads back.** -/
theorem readNum_toString (z : ℤ) {rest : List Char} (h : Ends rest) :
    readNum ((toString z).toList ++ rest) = some (num z, rest) := by
  cases z with
  | ofNat n =>
    have hminus : (Nat.toDigits 10 n ++ rest).head? ≠ some '-' := by
      rw [List.head?_append_of_ne_nil _ Nat.toDigits_ne_nil]
      intro heq
      have hdigit : '-'.isDigit = true :=
        Nat.isDigit_of_mem_toDigits (by decide) (by decide) (List.mem_of_head? heq)
      exact absurd hdigit (by decide)
    rw [Int.ofNat_eq_natCast, toList_toString_ofNat, readNum, if_neg hminus, readNat_toDigits n h,
      Option.map_some]
  | negSucc n =>
    rw [toList_toString_negSucc, List.cons_append, readNum, List.head?_cons, if_pos rfl,
      List.tail_cons, readNat_toDigits _ h, Option.map_some]
    rfl

/-! ## Values -/

mutual

/-- Some value inside, or the value itself, has the property. -/
def anyNode (p : JsonValue → Bool) : JsonValue → Bool
  | arr items => p (arr items) || anyItem p items
  | obj members => p (obj members) || anyMember p members
  | null => p null
  | bool b => p (bool b)
  | num n => p (num n)
  | str s => p (str s)

def anyItem (p : JsonValue → Bool) : List JsonValue → Bool
  | [] => false
  | x :: xs => anyNode p x || anyItem p xs

def anyMember (p : JsonValue → Bool) : List (String × JsonValue) → Bool
  | [] => false
  | (_, x) :: ms => anyNode p x || anyMember p ms

end

def isConstant : JsonValue → Bool
  | null => true
  | bool _ => true
  | _ => false

/-- A constant is in the value. -/
def hasConstant (j : JsonValue) : Bool := j.anyNode isConstant

def hasTwins : JsonValue → Bool
  | obj members => !decide (members.map Prod.fst).Nodup
  | _ => false

/-- The members of each object in the value have different names. -/
def UniqueKeys (j : JsonValue) : Prop := j.anyNode hasTwins = false

instance (j : JsonValue) : Decidable j.UniqueKeys := inferInstanceAs (Decidable (_ = _))

theorem foldl_setMember (ms acc : List (String × JsonValue))
    (h : ((acc ++ ms).map Prod.fst).Nodup) :
    ms.foldl (fun ms m => setMember m.1 m.2 ms) acc = acc ++ ms := by
  induction ms generalizing acc with
  | nil => simp
  | cons m ms ih =>
    have hnew : m.1 ∉ acc.map Prod.fst := by
      rw [List.map_append, List.nodup_append] at h
      exact fun hmem => h.2.2 _ hmem m.1 (by simp) rfl
    rw [List.foldl_cons, setMember_of_notMem _ hnew, ih _ (by simpa using h), List.append_assoc,
      List.singleton_append]

/-- An integer starts with a digit or a minus. -/
theorem toString_int_cons (z : ℤ) :
    ∃ c cs, (toString z).toList = c :: cs ∧ (c.isDigit ∨ c = '-') := by
  have hne : (toString z).toList ≠ [] := by
    cases z with
    | ofNat n =>
      rw [Int.ofNat_eq_natCast, toList_toString_ofNat]
      exact Nat.toDigits_ne_nil
    | negSucc n =>
      rw [toList_toString_negSucc]
      exact List.cons_ne_nil _ _
  obtain ⟨c, cs, hcs⟩ := List.exists_cons_of_ne_nil hne
  exact ⟨c, cs, hcs, mem_toString_int (hcs ▸ List.mem_cons_self)⟩

theorem not_isSep_of_number {c : Char} (h : c.isDigit ∨ c = '-') :
    isSep c = false ∧ c ∉ ['[', '{', '"', ']'] := by
  rcases h with h | rfl
  · constructor
    · by_contra hsep
      simp only [isSep, Bool.not_eq_false, Bool.or_eq_true, decide_eq_true_eq] at hsep
      rcases hsep with ((rfl | rfl) | rfl) | rfl <;> exact absurd h (by decide)
    · intro hmem
      have hall : ∀ c ∈ ['[', '{', '"', ']'], c.isDigit = false := by simp
      rw [hall c hmem] at h
      cases h
  · decide

/-- A value starts with a character of its own. -/
theorem text_cons (j : JsonValue) (rest : List Char) :
    ∃ c cs, j.text ++ rest = c :: cs ∧ isSep c = false ∧ c ≠ ']' := by
  cases j with
  | num n =>
    obtain ⟨c, cs, hcs, hc⟩ := toString_int_cons n
    obtain ⟨hsep, hnot⟩ := not_isSep_of_number hc
    refine ⟨c, cs ++ rest, by rw [text, hcs, List.cons_append], hsep, ?_⟩
    rintro rfl
    exact hnot (by decide)
  | bool b => cases b <;> exact ⟨_, _, rfl, by decide⟩
  | null => exact ⟨_, _, rfl, by decide⟩
  | str s => exact ⟨_, _, rfl, by decide⟩
  | arr items => exact ⟨_, _, rfl, by decide⟩
  | obj members => exact ⟨_, _, rfl, by decide⟩

theorem parse_space (names : Spelling) (fuel : ℕ) (cs : List Char) :
    parse names fuel (' ' :: cs) = parse names fuel cs := by
  cases fuel with
  | zero => rw [parse, parse]
  | succ fuel =>
    rw [parse, parse]
    rfl

theorem parseItems_space (names : Spelling) (fuel : ℕ) (cs : List Char) :
    parseItems names fuel (' ' :: cs) = parseItems names fuel cs := by
  cases fuel with
  | zero => rw [parseItems, parseItems]
  | succ fuel => rw [parseItems, parseItems, parse_space]

theorem parseMembers_space (names : Spelling) (fuel : ℕ) (cs : List Char) :
    parseMembers names fuel (' ' :: cs) = parseMembers names fuel cs := by
  cases fuel with
  | zero => rw [parseMembers, parseMembers]
  | succ fuel => rw [parseMembers, parseMembers, behind?_space]

/-- Without a bracket or a quote it is a constant or a number. -/
theorem parse_plain {c : Char} (hsep : isSep c = false) (hopen : c ∉ ['[', '{', '"'])
    (names : Spelling) (fuel : ℕ) (cs : List Char) : parse names (fuel + 1) (c :: cs) =
      (readConstant names.constants (c :: cs)).orElse fun _ => readNum (c :: cs) := by
  have hno : ∀ token ∈ ['[', '{', '"'], behind? token (c :: cs) = none := fun token htoken =>
    behind?_of_ne hsep (fun heq => hopen (heq ▸ htoken)) cs
  rw [parse, hno '[' (by decide), hno '{' (by decide), hno '"' (by decide), skip_cons hsep]

/-- A constant reads back in its own spelling only. -/
theorem parse_constant {j : JsonValue} (hj : isConstant j = true) (names : Spelling) (fuel : ℕ)
    (rest : List Char) : parse names (fuel + 1) (j.text ++ rest) =
      if names = .json then some (j, rest) else none := by
  cases j with
  | null =>
    refine (parse_plain (by decide) (by decide) names fuel _).trans ?_
    cases names <;> rfl
  | bool b =>
    cases b with
    | true =>
      refine (parse_plain (by decide) (by decide) names fuel _).trans ?_
      cases names <;> rfl
    | false =>
      refine (parse_plain (by decide) (by decide) names fuel _).trans ?_
      cases names <;> rfl
  | _ => nomatch hj

theorem parse_num (z : ℤ) (names : Spelling) (fuel : ℕ) {rest : List Char} (h : Ends rest) :
    parse names (fuel + 1) ((num z).text ++ rest) = some (num z, rest) := by
  obtain ⟨c, cs, hcs, hc⟩ := toString_int_cons z
  obtain ⟨hsep, hnot⟩ := not_isSep_of_number hc
  have hnone : readConstant names.constants (c :: (cs ++ rest)) = none := by
    have hname : ∀ name ∈ names.constants, name.1 ≠ [] ∧
        ∀ d ∈ name.1.head?, ¬ (d.isDigit ∨ d = '-') := by
      cases names <;> simp [Spelling.constants]
    refine List.findSome?_eq_none_iff.mpr fun name hmem => if_neg fun hpre => ?_
    obtain ⟨d, ds, hd⟩ := List.exists_cons_of_ne_nil (hname name hmem).1
    rw [hd] at hpre
    obtain ⟨rfl, -⟩ := List.cons_prefix_cons.mp hpre
    exact (hname name hmem).2 d (by rw [hd]; rfl) hc
  have hread := readNum_toString z h
  have hopen : c ∉ ['[', '{', '"'] := fun hmem => hnot (List.mem_append_left [']'] hmem)
  rw [hcs, List.cons_append] at hread
  rw [text, hcs, List.cons_append, parse_plain hsep hopen, hnone]
  exact hread

theorem ends_cons {c : Char} (h : c.isDigit = false) (cs : List Char) : Ends (c :: cs) :=
  fun _ hd => Option.some.inj hd ▸ h

/-- What is read of a text with its constants in JSON's spelling. -/
def reading {α : Type} (names : Spelling) (constants : Bool) (a : α) (rest : List Char) :
    Option (α × List Char) :=
  if names = .json ∨ constants = false then some (a, rest) else none

theorem map_reading {α β : Type} (f : α × List Char → β × List Char) (g : α → β)
    (hf : ∀ a rest, f (a, rest) = (g a, rest)) (names : Spelling) (constants : Bool) (a : α)
    (rest : List Char) :
    (reading names constants a rest).map f = reading names constants (g a) rest := by
  rw [reading, reading]
  split_ifs
  · rw [Option.map_some, hf]
  · rfl

theorem bind_reading {α β : Type} {names : Spelling} {b b' : Bool} {a : α} {a' : β}
    {rest rest' : List Char} {f : α × List Char → Option (β × List Char)}
    (hf : f (a, rest) = reading names b' a' rest') :
    (reading names b a rest).bind f = reading names (b || b') a' rest' := by
  cases names <;> cases b <;> simp [reading] <;> simpa [reading] using hf

theorem parse_str (s : String) (names : Spelling) (fuel : ℕ) (rest : List Char) :
    parse names (fuel + 1) ((str s).text ++ rest) = some (str s, rest) := by
  have hread : (readString (stringText s ++ rest).tail).map
      (fun read => (str read.1, read.2)) = some (str s, rest) := by
    rw [readString_stringText, Option.map_some]
  rw [← hread, text, parse]
  rfl

theorem itemsText_cons (x : JsonValue) (xs : List JsonValue) (rest : List Char) :
    ∃ c cs, itemsText (x :: xs) ++ rest = c :: cs ∧ isSep c = false ∧ c ≠ ']' := by
  cases xs with
  | nil => exact text_cons x rest
  | cons y ys =>
    rw [itemsText, List.append_assoc]
    exact text_cons x _

theorem membersText_cons (m : String × JsonValue) (ms : List (String × JsonValue))
    (rest : List Char) : ∃ cs, membersText (m :: ms) ++ rest = '"' :: cs := by
  cases ms <;> exact ⟨_, rfl⟩

theorem parse_arr (x : JsonValue) (xs : List JsonValue) (names : Spelling) (fuel : ℕ)
    (rest : List Char) : parse names (fuel + 1) ((arr (x :: xs)).text ++ rest) =
      (parseItems names fuel (itemsText (x :: xs) ++ ']' :: rest)).map
        fun read => (arr read.1, read.2) := by
  obtain ⟨c, cs, hcs, hsep, hne⟩ := itemsText_cons x xs (']' :: rest)
  rw [text, List.cons_append, List.append_assoc, List.singleton_append, parse,
    behind?_self (by decide), hcs]
  dsimp only
  rw [behind?_of_ne hsep hne]

theorem parse_obj (m : String × JsonValue) (ms : List (String × JsonValue)) (names : Spelling)
    (fuel : ℕ) (rest : List Char) : parse names (fuel + 1) ((obj (m :: ms)).text ++ rest) =
      (parseMembers names fuel (membersText (m :: ms) ++ '}' :: rest)).map
        fun read => (obj (read.1.foldl (fun ms m => setMember m.1 m.2 ms) []), read.2) := by
  obtain ⟨cs, hcs⟩ := membersText_cons m ms ('}' :: rest)
  rw [text, List.cons_append, List.append_assoc, List.singleton_append, parse,
    behind?_of_ne (by decide) (by decide), behind?_self (by decide), hcs]
  dsimp only
  rw [behind?_of_ne (by decide) (by decide)]

mutual

/-- **A value reads back** if the constants in it are spelled so, and not at all otherwise. -/
theorem parse_text (names : Spelling) (j : JsonValue) (hkeys : j.anyNode hasTwins = false)
    {fuel : ℕ} {rest : List Char} (hfuel : j.text.length < fuel) (hrest : Ends rest) :
    parse names fuel (j.text ++ rest) = reading names (j.anyNode isConstant) j rest := by
  obtain ⟨fuel, rfl⟩ := Nat.exists_eq_succ_of_ne_zero (by omega : fuel ≠ 0)
  match j with
  | null =>
    simpa [anyNode, isConstant, reading] using parse_constant (j := null) rfl names fuel rest
  | bool b =>
    simpa [anyNode, isConstant, reading] using parse_constant (j := bool b) rfl names fuel rest
  | num z => simpa [anyNode, isConstant, reading] using parse_num z names fuel hrest
  | str s => simpa [anyNode, isConstant, reading] using parse_str s names fuel rest
  | arr [] => cases names <;> rfl
  | arr (x :: xs) =>
    rw [anyNode, Bool.or_eq_false_iff] at hkeys
    have hlength : (itemsText (x :: xs)).length + 1 < fuel := by
      simp only [text, List.length_cons, List.length_append, List.length_nil] at hfuel
      omega
    rw [parse_arr, parseItems_text names _ (List.cons_ne_nil x xs) hkeys.2 rest hlength,
      map_reading _ arr fun _ _ => rfl]
    rfl
  | obj [] => cases names <;> rfl
  | obj (m :: ms) =>
    rw [anyNode, Bool.or_eq_false_iff] at hkeys
    have hlength : (membersText (m :: ms)).length + 1 < fuel := by
      simp only [text, List.length_cons, List.length_append, List.length_nil] at hfuel
      omega
    have hnodup : ((m :: ms).map Prod.fst).Nodup := by simpa [hasTwins] using hkeys.1
    rw [parse_obj, parseMembers_text names _ (List.cons_ne_nil m ms) hkeys.2 rest hlength,
      map_reading _ (fun ms => obj (ms.foldl (fun ms m => setMember m.1 m.2 ms) []))
        fun _ _ => rfl, foldl_setMember _ [] hnodup]
    rfl

theorem parseItems_text (names : Spelling) (items : List JsonValue) (hne : items ≠ [])
    (hkeys : anyItem hasTwins items = false) {fuel : ℕ} (rest : List Char)
    (hfuel : (itemsText items).length + 1 < fuel) :
    parseItems names fuel (itemsText items ++ ']' :: rest) =
      reading names (anyItem isConstant items) items rest := by
  obtain ⟨fuel, rfl⟩ := Nat.exists_eq_succ_of_ne_zero (by omega : fuel ≠ 0)
  match items with
  | [] => exact absurd rfl hne
  | [x] =>
    rw [anyItem, Bool.or_eq_false_iff] at hkeys
    rw [itemsText] at hfuel ⊢
    rw [parseItems, parse_text names x hkeys.1 (by omega) (ends_cons (by decide) _)]
    refine bind_reading ?_
    dsimp only
    rw [behind?_of_ne (by decide) (by decide), behind?_self (by decide)]
    cases names <;> rfl
  | x :: y :: ys =>
    rw [anyItem, Bool.or_eq_false_iff] at hkeys
    simp only [itemsText, List.length_append, List.length_cons] at hfuel
    rw [itemsText, List.append_assoc, List.cons_append, List.cons_append, parseItems,
      parse_text names x hkeys.1 (by omega) (ends_cons (by decide) _)]
    refine bind_reading ?_
    dsimp only
    rw [behind?_self (by decide)]
    dsimp only
    rw [parseItems_space, parseItems_text names _ (List.cons_ne_nil y ys) hkeys.2 rest (by omega),
      map_reading _ (List.cons x) fun _ _ => rfl]

theorem parseMembers_text (names : Spelling) (members : List (String × JsonValue))
    (hne : members ≠ []) (hkeys : anyMember hasTwins members = false) {fuel : ℕ}
    (rest : List Char) (hfuel : (membersText members).length + 1 < fuel) :
    parseMembers names fuel (membersText members ++ '}' :: rest) =
      reading names (anyMember isConstant members) members rest := by
  obtain ⟨fuel, rfl⟩ := Nat.exists_eq_succ_of_ne_zero (by omega : fuel ≠ 0)
  match members with
  | [] => exact absurd rfl hne
  | [(key, x)] =>
    rw [anyMember, Bool.or_eq_false_iff] at hkeys
    simp only [membersText, List.length_append, List.length_cons] at hfuel
    rw [membersText, List.append_assoc, List.cons_append, List.cons_append, parseMembers,
      behind?_stringText, Option.bind_some, readString_stringText, Option.bind_some]
    dsimp only
    rw [behind?_self (by decide), Option.bind_some, parse_space,
      parse_text names x hkeys.1 (by omega) (ends_cons (by decide) _)]
    refine bind_reading ?_
    dsimp only
    rw [behind?_of_ne (by decide) (by decide), behind?_self (by decide)]
    cases names <;> rfl
  | (key, x) :: m :: ms =>
    rw [anyMember, Bool.or_eq_false_iff] at hkeys
    simp only [membersText, List.length_append, List.length_cons] at hfuel
    rw [membersText, List.append_assoc, List.cons_append, List.cons_append, List.append_assoc,
      List.cons_append, List.cons_append, parseMembers,
      behind?_stringText, Option.bind_some, readString_stringText, Option.bind_some]
    dsimp only
    rw [behind?_self (by decide), Option.bind_some, parse_space,
      parse_text names x hkeys.1 (by omega) (ends_cons (by decide) _)]
    refine bind_reading ?_
    dsimp only
    rw [behind?_self (by decide)]
    dsimp only
    rw [parseMembers_space,
      parseMembers_text names _ (List.cons_ne_nil m ms) hkeys.2 rest (by omega),
      map_reading _ (List.cons (key, x)) fun _ _ => rfl]

end

theorem parseText_text (names : Spelling) {j : JsonValue} (h : j.UniqueKeys) :
    parseText names j.text = if names = .json ∨ j.hasConstant = false then some j else none := by
  have hparse := parse_text names j h (Nat.lt_succ_self _) (show Ends [] by simp [Ends])
  rw [List.append_nil] at hparse
  rw [parseText, hparse, reading, hasConstant]
  split_ifs
  · rfl
  · rfl

/-- **Reading undoes writing**, of a value whose objects have members of different names. -/
theorem loads_dumps {j : JsonValue} (h : j.UniqueKeys) : loads? j.dumps = some j := by
  rw [loads?, dumps, String.toList_ofList, parseText_text _ h, if_pos (.inl rfl)]

/-- **In the interpreter's spelling it does so** exactly when no constant is in the value. -/
theorem literalEval?_dumps {j : JsonValue} (h : j.UniqueKeys) :
    literalEval? j.dumps = if j.hasConstant = false then some j else none := by
  obtain ⟨c, cs, hcs, hsep, -⟩ := text_cons j []
  rw [List.append_nil] at hcs
  have hblank : j.text.takeWhile isSep = [] := by
    rw [hcs, List.takeWhile_cons_of_neg (by simp [hsep])]
  have hnot : ¬ indented j.dumps = true := by
    rw [indented, dumps, String.toList_ofList, hblank]
    simp
  rw [literalEval?, if_neg hnot, dumps, String.toList_ofList]
  simpa using parseText_text .python h

theorem ne_nil_of_parseItems {names : Spelling} {fuel : ℕ} {cs rest : List Char}
    {xs : List JsonValue} (h : parseItems names fuel cs = some (xs, rest)) : xs ≠ [] := by
  cases fuel with
  | zero => cases h
  | succ fuel =>
    rw [parseItems] at h
    obtain ⟨⟨x, behind⟩, -, h⟩ := Option.bind_eq_some_iff.mp h
    dsimp only at h
    split at h
    · obtain ⟨read, -, heq⟩ := Option.map_eq_some_iff.mp h
      obtain ⟨rfl, -⟩ := Prod.mk.inj heq
      exact List.cons_ne_nil _ _
    · obtain ⟨read, -, heq⟩ := Option.map_eq_some_iff.mp h
      obtain ⟨rfl, -⟩ := Prod.mk.inj heq
      exact List.cons_ne_nil _ _

theorem ne_nil_of_readConstant {names : Spelling} {cs rest : List Char} {j : JsonValue}
    (h : readConstant names.constants cs = some (j, rest)) : j ≠ arr [] := by
  have hall : ∀ name ∈ names.constants, isConstant name.2 = true := by cases names <;> decide
  obtain ⟨name, hname, h⟩ := List.exists_of_findSome?_eq_some h
  split_ifs at h
  obtain ⟨rfl, -⟩ := Prod.mk.inj (Option.some.inj h)
  intro heq
  have hconst := hall name hname
  rw [heq] at hconst
  cases hconst

theorem ne_nil_of_readNum {cs rest : List Char} {j : JsonValue} (h : readNum cs = some (j, rest)) :
    j ≠ arr [] := by
  rw [readNum] at h
  split_ifs at h
  · obtain ⟨n, -, heq⟩ := Option.map_eq_some_iff.mp h
    obtain ⟨rfl, -⟩ := Prod.mk.inj heq
    exact fun hnum => by cases hnum
  · obtain ⟨n, -, heq⟩ := Option.map_eq_some_iff.mp h
    obtain ⟨rfl, -⟩ := Prod.mk.inj heq
    exact fun hnum => by cases hnum

/-- An empty list is an opening bracket and a closing one. -/
theorem parse_eq_nil {names : Spelling} {fuel : ℕ} {cs rest : List Char} :
    parse names (fuel + 1) cs = some (arr [], rest) ↔
      (behind? '[' cs).bind (behind? ']') = some rest := by
  rw [parse]
  cases behind? '[' cs with
  | some inside =>
    rw [Option.bind_some]
    dsimp only
    cases behind? ']' inside with
    | some rest' => simp
    | none =>
      simp only [reduceCtorEq, iff_false]
      intro h
      obtain ⟨read, hread, heq⟩ := Option.map_eq_some_iff.mp h
      exact ne_nil_of_parseItems hread (arr.inj (Prod.mk.inj heq).1)
  | none =>
    simp only [Option.bind_none, reduceCtorEq, iff_false]
    split
    · split
      · simp
      · simp
    · split
      · simp
      · intro h
        cases hconst : readConstant names.constants (skip cs) with
        | some read =>
          rw [hconst] at h
          obtain ⟨j, behind⟩ := read
          exact ne_nil_of_readConstant hconst (Prod.mk.inj (Option.some.inj h)).1
        | none =>
          rw [hconst] at h
          exact ne_nil_of_readNum h rfl

theorem literalEval?_of_nil {s : String} (h : loads? s = some (arr [])) :
    literalEval? s = if indented s then none else some (arr []) := by
  obtain ⟨⟨x, rest⟩, hparse, hrest⟩ := Option.bind_eq_some_iff.mp h
  dsimp only at hrest
  split_ifs at hrest with hskip
  obtain rfl := Option.some.inj hrest
  have hsame : parse .python (s.toList.length + 1) s.toList = some (arr [], rest) :=
    parse_eq_nil.mpr (parse_eq_nil.mp hparse)
  rw [literalEval?, parseText, hsame, Option.bind_some]
  dsimp only
  rw [if_pos hskip]

theorem anyItem_eq_false {p : JsonValue → Bool} {xs : List JsonValue} :
    anyItem p xs = false ↔ ∀ x ∈ xs, x.anyNode p = false := by
  induction xs with
  | nil => simp [anyItem]
  | cons x xs ih => rw [anyItem, Bool.or_eq_false_iff, ih, List.forall_mem_cons]

theorem anyMember_eq_false {p : JsonValue → Bool} {ms : List (String × JsonValue)} :
    anyMember p ms = false ↔ ∀ m ∈ ms, m.2.anyNode p = false := by
  induction ms with
  | nil => simp [anyMember]
  | cons m ms ih => rw [anyMember, Bool.or_eq_false_iff, ih, List.forall_mem_cons]

/-! ## Unique keys -/

theorem uniqueKeys_arr {xs : List JsonValue} :
    (arr xs).UniqueKeys ↔ ∀ x ∈ xs, x.UniqueKeys := by
  rw [UniqueKeys, anyNode]
  exact anyItem_eq_false

theorem uniqueKeys_obj {ms : List (String × JsonValue)} :
    (obj ms).UniqueKeys ↔ (ms.map Prod.fst).Nodup ∧ ∀ m ∈ ms, m.2.UniqueKeys := by
  rw [UniqueKeys, anyNode, hasTwins, Bool.or_eq_false_iff, anyMember_eq_false]
  refine and_congr ?_ .rfl
  simp

theorem UniqueKeys.member? {j value : JsonValue} {key : String} (h : j.UniqueKeys)
    (hvalue : j.member? key = some value) : value.UniqueKeys := by
  cases j with
  | obj ms =>
    obtain ⟨m, hfound, rfl⟩ := Option.map_eq_some_iff.mp hvalue
    exact (uniqueKeys_obj.mp h).2 m (List.mem_of_find?_eq_some hfound)
  | _ => cases hvalue

/-- **What is inside has unique keys too.** -/
theorem UniqueKeys.get? {j value : JsonValue} {path : List String} (h : j.UniqueKeys)
    (hvalue : j.get? path = some value) : value.UniqueKeys := by
  induction path generalizing j with
  | nil =>
    obtain rfl := Option.some.inj hvalue
    exact h
  | cons key path ih =>
    obtain ⟨child, hchild, hrest⟩ := Option.bind_eq_some_iff.mp hvalue
    exact ih (h.member? hchild) hrest

/-- To set a member adds at most the one key. -/
theorem map_fst_setMember (key : String) (value : JsonValue) (ms : List (String × JsonValue)) :
    (setMember key value ms).map Prod.fst =
      if key ∈ ms.map Prod.fst then ms.map Prod.fst else ms.map Prod.fst ++ [key] := by
  induction ms with
  | nil => rfl
  | cons m ms ih =>
    rw [setMember]
    by_cases hkey : m.1 = key
    · rw [if_pos hkey, if_pos (by simp [hkey]), List.map_cons, List.map_cons, hkey]
    · have hiff : key ∈ (m :: ms).map Prod.fst ↔ key ∈ ms.map Prod.fst := by
        rw [List.map_cons, List.mem_cons, or_iff_right (Ne.symm hkey)]
      rw [if_neg hkey, List.map_cons, ih, if_congr hiff rfl rfl]
      split_ifs <;> rfl

theorem mem_setMember {key : String} {value : JsonValue} {ms : List (String × JsonValue)}
    {m : String × JsonValue} (h : m ∈ setMember key value ms) : m = (key, value) ∨ m ∈ ms := by
  induction ms with
  | nil => exact .inl (List.mem_singleton.mp h)
  | cons x ms ih =>
    rw [setMember] at h
    split_ifs at h with hkey
    · exact (List.mem_cons.mp h).imp_right (List.mem_cons_of_mem x)
    · rcases List.mem_cons.mp h with rfl | hrest
      · exact .inr List.mem_cons_self
      · exact (ih hrest).imp_right (List.mem_cons_of_mem x)

theorem UniqueKeys.setMember {key : String} {value : JsonValue} {ms : List (String × JsonValue)}
    (h : (obj ms).UniqueKeys) (hvalue : value.UniqueKeys) :
    (obj (setMember key value ms)).UniqueKeys := by
  obtain ⟨hnodup, hmembers⟩ := uniqueKeys_obj.mp h
  refine uniqueKeys_obj.mpr ⟨?_, fun m hm => ?_⟩
  · rw [map_fst_setMember]
    split_ifs with hmem
    · exact hnodup
    · exact List.nodup_append.mpr ⟨hnodup, List.nodup_singleton key, by
        rintro a ha b hb rfl
        exact hmem (List.mem_singleton.mp hb ▸ ha)⟩
  · rcases mem_setMember hm with rfl | hm
    · exact hvalue
    · exact hmembers m hm

/-! ## ASCII -/

theorem isAscii_unitText (n : ℕ) : ∀ c ∈ unitText n, c.toNat < 128 := by
  have hdigit : ∀ d < 16, (Nat.digitChar d).toNat < 128 := by decide
  intro c hc
  simp only [unitText, hexFour, List.map_cons, List.map_nil, List.mem_cons, List.not_mem_nil,
    or_false] at hc
  rcases hc with rfl | rfl | rfl | rfl | rfl | rfl
  · decide
  · decide
  all_goals exact hdigit _ (Nat.mod_lt _ (by decide))

theorem isAscii_charText (c : Char) : ∀ d ∈ charText c, d.toNat < 128 := by
  rw [charText]
  split
  · rename_i e hfound
    have hall : ∀ e ∈ shortEscapes, e.2.toNat < 128 := by decide
    have he := hall e (List.mem_of_find?_eq_some hfound)
    exact List.forall_mem_cons.mpr ⟨by decide, List.forall_mem_singleton.mpr he⟩
  · split_ifs with hplain hunit
    · refine List.forall_mem_singleton.mpr ?_
      have hle : c.toNat ≤ '~'.toNat := hplain.2
      exact hle.trans_lt (by decide)
    · exact isAscii_unitText _
    · exact List.forall_mem_append.mpr ⟨isAscii_unitText _, isAscii_unitText _⟩

theorem isAscii_stringText (s : String) : ∀ c ∈ stringText s, c.toNat < 128 := by
  refine List.forall_mem_cons.mpr ⟨by decide, List.forall_mem_append.mpr ⟨fun c hc => ?_,
    List.forall_mem_singleton.mpr (by decide)⟩⟩
  obtain ⟨d, -, hd⟩ := List.mem_flatMap.mp hc
  exact isAscii_charText d c hd

theorem isAscii_number (n : ℤ) : ∀ c ∈ (toString n).toList, c.toNat < 128 := by
  intro c hc
  rcases mem_toString_int hc with hdigit | rfl
  · have hle : c.toNat ≤ '9'.toNat := (Bool.and_eq_true_iff.mp hdigit).2 |> of_decide_eq_true
    exact hle.trans_lt (by decide)
  · decide

mutual

/-- **What is written is in ASCII.** -/
theorem isAscii_text (j : JsonValue) : ∀ c ∈ j.text, c.toNat < 128 := by
  match j with
  | null => exact (by simp : ∀ c ∈ "null".toList, c.toNat < 128)
  | bool true => exact (by simp : ∀ c ∈ "true".toList, c.toNat < 128)
  | bool false => exact (by simp : ∀ c ∈ "false".toList, c.toNat < 128)
  | num n => exact isAscii_number n
  | str s => exact isAscii_stringText s
  | arr items =>
    exact List.forall_mem_cons.mpr ⟨by decide, List.forall_mem_append.mpr
      ⟨isAscii_itemsText items, List.forall_mem_singleton.mpr (by decide)⟩⟩
  | obj members =>
    exact List.forall_mem_cons.mpr ⟨by decide, List.forall_mem_append.mpr
      ⟨isAscii_membersText members, List.forall_mem_singleton.mpr (by decide)⟩⟩

theorem isAscii_itemsText (items : List JsonValue) : ∀ c ∈ itemsText items, c.toNat < 128 := by
  match items with
  | [] => exact fun c hc => nomatch hc
  | [x] => exact isAscii_text x
  | x :: y :: xs =>
    exact List.forall_mem_append.mpr ⟨isAscii_text x, List.forall_mem_cons.mpr ⟨by decide,
      List.forall_mem_cons.mpr ⟨by decide, isAscii_itemsText (y :: xs)⟩⟩⟩

theorem isAscii_membersText (members : List (String × JsonValue)) :
    ∀ c ∈ membersText members, c.toNat < 128 := by
  match members with
  | [] => exact fun c hc => nomatch hc
  | [(key, x)] =>
    exact List.forall_mem_append.mpr ⟨isAscii_stringText key, List.forall_mem_cons.mpr ⟨by decide,
      List.forall_mem_cons.mpr ⟨by decide, isAscii_text x⟩⟩⟩
  | (key, x) :: m :: ms =>
    exact List.forall_mem_append.mpr ⟨isAscii_stringText key, List.forall_mem_cons.mpr ⟨by decide,
      List.forall_mem_cons.mpr ⟨by decide, List.forall_mem_append.mpr ⟨isAscii_text x,
        List.forall_mem_cons.mpr ⟨by decide, List.forall_mem_cons.mpr ⟨by decide,
          isAscii_membersText (m :: ms)⟩⟩⟩⟩⟩⟩

end

end JsonValue

end Machinery
