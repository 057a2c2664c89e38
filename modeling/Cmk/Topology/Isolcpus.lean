import Cmk.Machinery.BootLine
import Cmk.Proc

/-!
# Topology/Isolcpus — `isolcpus` as the kernel reads it and as the program does

The kernel takes a list of flags before the CPU list, and keeps a quoted argument together.
`parse_isolcpus` splits at all white space and decodes what follows `isolcpus=`, where a flag is no
integer.  It reads what the kernel reads exactly when no list has a flag, and what else reads
`isolcpus=` inside another argument names no other CPU (`isolcpus_read_iff`).
-/

open Machinery Cmk.Topology

namespace Cmk

/-! ## The kernel's reading -/

/-- What the parameters `isolcpus=` say. -/
def isolcpusArgs (cmdline : String) : List String :=
  (bootParams cmdline).filterMap (argOf? "isolcpus")

/-- The values of `isolcpus` have the kernel's form, as they are written. -/
def KernelForm (cmdline : String) : Prop :=
  ∀ word ∈ bootParams cmdline, ∀ value ∈ argOf? "isolcpus" word,
    word = "isolcpus=" ++ value ∧ (flaggedList? value).isSome

instance (cmdline : String) : Decidable (KernelForm cmdline) :=
  inferInstanceAs (Decidable (∀ word ∈ bootParams cmdline, ∀ value ∈ argOf? "isolcpus" word, _))

/-- A list of the command line names the CPU. -/
def NamedByIsolcpus (cmdline : String) (z : ℤ) : Prop :=
  ∃ value ∈ isolcpusArgs cmdline, ∃ flags items, flaggedList? value = some (flags, items) ∧
    z ∈ (items.flatMap CpuItem.cpus).map Int.ofNat

/-- `parse_isolcpus` returns the CPUs that are named, each once. -/
def ReadAsKernel (cmdline : String) : Prop :=
  ∃ cpus, parseIsolcpus cmdline = .ok cpus ∧ cpus.Nodup ∧
    ∀ z, z ∈ cpus ↔ NamedByIsolcpus cmdline z

/-! ## What stands in the way -/

/-- The value of a field `isolcpus=value`. -/
def fieldValue? (field : String) : Option String :=
  match splitText '=' field with
  | ["isolcpus", value] => some value
  | _ => none

/-- The words that are no parameter `isolcpus=` of the kernel. -/
def otherWords (cmdline : String) : List String :=
  ((bootParams cmdline).filter fun word => (argOf? "isolcpus" word).isNone) ++ bootRest cmdline

/-- The values of fields `isolcpus=value` inside these. -/
def hiddenValues (cmdline : String) : List String :=
  ((otherWords cmdline).flatMap splitSpace).filterMap fieldValue?

/-- What stands around the hyphens of a piece. -/
def rangeEnds (piece : String) : List String := splitSpace (joinWith " " (splitText '-' piece))

/-- A piece that names only such CPUs: an integer, a range, or hyphens without the two ends of a
range, which are passed over. -/
inductive Harmless (P : ℤ → Prop) (piece : String) : Prop
  | one {z : ℤ} : '-' ∉ piece.toList → intOfText? piece = some z → P z → Harmless P piece
  | range {lo hi : String} {a b : ℤ} : '-' ∈ piece.toList → rangeEnds piece = [lo, hi] →
      intOfText? lo = some a → intOfText? hi = some b → (∀ z, a ≤ z → z ≤ b → P z) →
      Harmless P piece
  | skipped : '-' ∈ piece.toList → (rangeEnds piece).length ≠ 2 → Harmless P piece

/-- No list has a flag, and no field inside another word names a CPU of its own. -/
structure PlainIsolcpus (cmdline : String) : Prop where
  noFlag : ∀ value ∈ isolcpusArgs cmdline, ∀ flags items,
    flaggedList? value = some (flags, items) → flags = []
  hidden : ∀ value ∈ hiddenValues cmdline, ∀ piece ∈ splitText ',' value,
    Harmless (NamedByIsolcpus cmdline) piece

variable {cmdline value : String} {flags : List String} {items : List CpuItem}

/-! ## What the program reads -/

/-- The values the program decodes. -/
def fieldValues (cmdline : String) : List String := (splitSpace cmdline).filterMap fieldValue?

/-- What is decoded of a field: nothing, if it is not `isolcpus=value`. -/
def fieldCpus (field : String) : Except PyErr (List ℤ) :=
  (fieldValue? field).elim (.ok []) fun value => parseCpusStr (splitText ',' value)

theorem parseIsolcpus_eq (cmdline : String) : parseIsolcpus cmdline = (do
    let cpus ← (splitSpace cmdline).mapM fieldCpus
    return cpus.flatten.dedup) := by
  rw [parseIsolcpus, splitSpace_rstripText, List.mapM_map]
  refine congrArg (fun f => (splitSpace cmdline).mapM f >>= fun cpus =>
    (pure cpus.flatten.dedup : Except PyErr (List ℤ))) (funext fun field => ?_)
  rw [fieldCpus, fieldValue?, Function.comp_apply]
  rcases splitText '=' field with - | ⟨key, - | ⟨value, - | ⟨piece, pieces⟩⟩⟩
  · simp
  · simp
  · by_cases hkey : key = "isolcpus" <;> simp [hkey]
  · simp

/-- What is in the results of a list of calls that all return. -/
theorem mem_flatten_of_mapM {α β : Type} {f : α → Except PyErr (List β)} {xs : List α}
    {yss : List (List β)} (h : xs.mapM f = .ok yss) {y : β} :
    y ∈ yss.flatten ↔ ∃ x ∈ xs, ∃ ys, f x = .ok ys ∧ y ∈ ys := by
  induction mapM_eq_ok.mp h with
  | nil => simp
  | @cons x ys xs yss hx hxs ih =>
    have hhead : (∃ zs, f x = .ok zs ∧ y ∈ zs) ↔ y ∈ ys := by simp [hx]
    rw [List.flatten_cons, List.mem_append, ih (mapM_eq_ok.mpr hxs), List.exists_mem_cons_iff,
      hhead]

theorem fieldCpus_of_value {field : String} (h : fieldValue? field = some value) :
    fieldCpus field = parseCpusStr (splitText ',' value) := by
  rw [fieldCpus, h]
  rfl

/-- A CPU decoded of a field is decoded of its value. -/
theorem exists_field_iff {z : ℤ} :
    (∃ field ∈ splitSpace cmdline, ∃ cpus, fieldCpus field = .ok cpus ∧ z ∈ cpus) ↔
      ∃ value ∈ fieldValues cmdline, ∃ cpus,
        parseCpusStr (splitText ',' value) = .ok cpus ∧ z ∈ cpus := by
  constructor
  · rintro ⟨field, hfield, cpus, hok, hz⟩
    cases hv : fieldValue? field with
    | none =>
      rw [fieldCpus, hv] at hok
      obtain rfl := Except.ok.inj hok
      cases hz
    | some value =>
      rw [fieldCpus_of_value hv] at hok
      exact ⟨value, List.mem_filterMap.mpr ⟨field, hfield, hv⟩, cpus, hok, hz⟩
  · rintro ⟨value, hvalue, cpus, hok, hz⟩
    obtain ⟨field, hfield, hv⟩ := List.mem_filterMap.mp hvalue
    exact ⟨field, hfield, cpus, (fieldCpus_of_value hv).trans hok, hz⟩

/-- **What is read is the CPUs of the fields**, if all of them can be decoded. -/
theorem parseIsolcpus_iff (P : ℤ → Prop) :
    (∃ cpus, parseIsolcpus cmdline = .ok cpus ∧ cpus.Nodup ∧ ∀ z, z ∈ cpus ↔ P z) ↔
      (∀ value ∈ fieldValues cmdline, ∃ cpus, parseCpusStr (splitText ',' value) = .ok cpus ∧
        ∀ z ∈ cpus, P z) ∧
      ∀ z, P z → ∃ value ∈ fieldValues cmdline, ∃ cpus,
        parseCpusStr (splitText ',' value) = .ok cpus ∧ z ∈ cpus := by
  rw [parseIsolcpus_eq]
  constructor
  · rintro ⟨cpus, hread, -, hiff⟩
    obtain ⟨css, hcss, hread⟩ := bind_eq_ok.mp hread
    obtain rfl := pure_eq_ok.mp hread
    have hall : ∀ z, P z ↔ ∃ value ∈ fieldValues cmdline, ∃ cpus,
        parseCpusStr (splitText ',' value) = .ok cpus ∧ z ∈ cpus := fun z => by
      rw [← hiff, List.mem_dedup, mem_flatten_of_mapM hcss, exists_field_iff]
    refine ⟨fun value hvalue => ?_, fun z => (hall z).mp⟩
    obtain ⟨field, hfield, hv⟩ := List.mem_filterMap.mp hvalue
    obtain ⟨cs, hcs⟩ := isOk_mapM.mp ⟨css, hcss⟩ field hfield
    rw [fieldCpus_of_value hv] at hcs
    exact ⟨cs, hcs, fun z hz => (hall z).mpr ⟨value, hvalue, cs, hcs, hz⟩⟩
  · rintro ⟨hdecode, hnamed⟩
    have hok : ∀ field ∈ splitSpace cmdline, IsOk (fieldCpus field) := by
      intro field hfield
      cases hv : fieldValue? field with
      | none => exact ⟨[], by rw [fieldCpus, hv]; rfl⟩
      | some value =>
        obtain ⟨cs, hcs, -⟩ := hdecode value (List.mem_filterMap.mpr ⟨field, hfield, hv⟩)
        exact ⟨cs, (fieldCpus_of_value hv).trans hcs⟩
    obtain ⟨css, hcss⟩ := isOk_mapM.mpr hok
    refine ⟨css.flatten.dedup, bind_eq_ok.mpr ⟨css, hcss, rfl⟩, List.nodup_dedup _, fun z => ?_⟩
    rw [List.mem_dedup, mem_flatten_of_mapM hcss, exists_field_iff]
    refine ⟨?_, hnamed z⟩
    rintro ⟨value, hvalue, cs, hcs, hz⟩
    obtain ⟨cs', hcs', hP⟩ := hdecode value hvalue
    obtain rfl := Except.ok.inj (hcs.symm.trans hcs')
    exact hP z hz

/-! ## What hides in other words -/

section

variable {P : ℤ → Prop} {piece : String} {rest : List String}

/-- What is decoded of a list names only such CPUs, so its first piece does. -/
theorem harmless_of_parseCpusStr {cpus : List ℤ} (hok : parseCpusStr (piece :: rest) = .ok cpus)
    (hP : ∀ z ∈ cpus, P z) :
    Harmless P piece ∧ ∃ cpus', parseCpusStr rest = .ok cpus' ∧ ∀ z ∈ cpus', P z := by
  by_cases hdash : '-' ∈ piece.toList
  · by_cases hlen : (rangeEnds piece).length = 2
    · obtain ⟨lo, hi, hends⟩ := List.length_eq_two.mp hlen
      rw [parseCpusStr_cons_range hdash hends] at hok
      obtain ⟨a, ha, hok⟩ := bind_eq_ok.mp hok
      obtain ⟨b, hb, hok⟩ := bind_eq_ok.mp hok
      obtain ⟨cpus', hrest, hok⟩ := bind_eq_ok.mp hok
      obtain rfl := pure_eq_ok.mp hok
      obtain ⟨hrange, hP⟩ := List.forall_mem_append.mp hP
      exact ⟨.range hdash hends (intOfStr_eq_ok_iff.mp ha) (intOfStr_eq_ok_iff.mp hb)
        fun z haz hzb => hrange z (mem_pyRange.mpr ⟨haz, hzb⟩), cpus', hrest, hP⟩
    · rw [parseCpusStr_cons_skipped hdash hlen] at hok
      exact ⟨.skipped hdash hlen, cpus, hok, hP⟩
  · rw [parseCpusStr_cons_int hdash] at hok
    obtain ⟨z, hz, hok⟩ := bind_eq_ok.mp hok
    obtain ⟨cpus', hrest, hok⟩ := bind_eq_ok.mp hok
    obtain rfl := pure_eq_ok.mp hok
    obtain ⟨hPz, hP⟩ := List.forall_mem_cons.mp hP
    exact ⟨.one hdash (intOfStr_eq_ok_iff.mp hz) hPz, cpus', hrest, hP⟩

/-- A harmless piece adds only such CPUs. -/
theorem parseCpusStr_of_harmless {cpus : List ℤ} (hpiece : Harmless P piece)
    (hrest : parseCpusStr rest = .ok cpus) (hP : ∀ z ∈ cpus, P z) :
    ∃ cpus', parseCpusStr (piece :: rest) = .ok cpus' ∧ ∀ z ∈ cpus', P z := by
  cases hpiece with
  | one hdash hz hPz =>
    rw [parseCpusStr_cons_int hdash, intOfStr_eq_ok_iff.mpr hz, hrest]
    exact ⟨_, rfl, List.forall_mem_cons.mpr ⟨hPz, hP⟩⟩
  | range hdash hends ha hb hrange =>
    rw [parseCpusStr_cons_range hdash hends, intOfStr_eq_ok_iff.mpr ha,
      intOfStr_eq_ok_iff.mpr hb, hrest]
    refine ⟨_, rfl, List.forall_mem_append.mpr ⟨fun z hz => ?_, hP⟩⟩
    obtain ⟨haz, hzb⟩ := mem_pyRange.mp hz
    exact hrange z haz hzb
  | skipped hdash hends =>
    rw [parseCpusStr_cons_skipped hdash hends]
    exact ⟨cpus, hrest, hP⟩

/-- **Pieces are decoded into such CPUs** when they are harmless, and only then. -/
theorem parseCpusStr_harmless (P : ℤ → Prop) (pieces : List String) :
    (∃ cpus, parseCpusStr pieces = .ok cpus ∧ ∀ z ∈ cpus, P z) ↔
      ∀ piece ∈ pieces, Harmless P piece := by
  induction pieces with
  | nil => exact iff_of_true ⟨[], rfl, List.forall_mem_nil _⟩ (List.forall_mem_nil _)
  | cons piece rest ih =>
    rw [List.forall_mem_cons, ← ih]
    constructor
    · rintro ⟨cpus, hok, hP⟩
      exact harmless_of_parseCpusStr hok hP
    · rintro ⟨hpiece, cpus, hrest, hP⟩
      exact parseCpusStr_of_harmless hpiece hrest hP

end

/-! ## A list of the kernel's form -/

/-- Without flags it is decoded. -/
theorem parseCpusStr_of_flaggedList? (h : flaggedList? value = some ([], items)) :
    parseCpusStr (splitText ',' value) = .ok ((items.flatMap CpuItem.cpus).map Int.ofNat) := by
  obtain ⟨-, pieces, hsplit, hpieces⟩ := flaggedList?_eq_some h
  rw [hsplit]
  exact parseCpusStr_of_items hpieces

/-- **A flag cannot be decoded.** -/
theorem flags_eq_nil_of_parseCpusStr (h : flaggedList? value = some (flags, items))
    {cpus : List ℤ} (hok : parseCpusStr (splitText ',' value) = .ok cpus) : flags = [] := by
  obtain ⟨hflags, pieces, hsplit, -⟩ := flaggedList?_eq_some h
  cases flags with
  | nil => rfl
  | cons flag flags =>
    obtain ⟨hdash, hint⟩ := intOfText?_of_isFlag (hflags flag (.head _))
    rw [hsplit, List.cons_append, parseCpusStr_cons_int hdash, intOfStr, hint] at hok
    cases hok

/-- A parameter of the kernel's form is one field. -/
theorem fieldValue?_of_param (h : (flaggedList? value).isSome) :
    splitSpace ("isolcpus=" ++ value) = ["isolcpus=" ++ value] ∧
      fieldValue? ("isolcpus=" ++ value) = some value := by
  obtain ⟨⟨flags, items⟩, hvalue⟩ := Option.isSome_iff_exists.mp h
  have hchars : ∀ c ∈ value.toList, isListChar c = true := fun c => chars_of_flaggedList? hvalue
  constructor
  · refine splitSpace_eq_singleton (by simp) fun c hc => ?_
    rw [String.toList_append, List.mem_append] at hc
    rcases hc with hc | hc
    · have hkey : ("isolcpus=".toList.all fun c => !isSpace c) = true := by decide
      simpa using List.all_eq_true.mp hkey c hc
    · exact isSpace_of_isListChar (hchars c hc)
  · have hequals : '=' ∉ value.toList := fun hmem => absurd (hchars _ hmem) (by decide)
    have hsplit : splitText '=' ("isolcpus" ++ String.ofList ['='] ++ value) =
        ["isolcpus", value] := by
      rw [splitText_append, splitText_eq_singleton hequals]
      rfl
    have hword : "isolcpus=" ++ value = "isolcpus" ++ String.ofList ['='] ++ value := rfl
    rw [fieldValue?, hword, hsplit]
    rfl

/-- The values decoded are those of the parameters, and those hidden in other words. -/
theorem mem_fieldValues (h : KernelForm cmdline) :
    value ∈ fieldValues cmdline ↔ value ∈ isolcpusArgs cmdline ∨ value ∈ hiddenValues cmdline := by
  have hwords : bootParams cmdline ++ bootRest cmdline = bootWords cmdline :=
    List.takeWhile_append_dropWhile
  rw [fieldValues, splitSpace_eq_flatMap]
  simp only [hiddenValues, isolcpusArgs, List.mem_filterMap, List.mem_flatMap]
  constructor
  · rintro ⟨field, ⟨word, hword, hfield⟩, hvalue⟩
    rw [← hwords, List.mem_append] at hword
    rcases hword with hword | hword
    · cases harg : argOf? "isolcpus" word with
      | none =>
        have hother : word ∈ otherWords cmdline :=
          List.mem_append_left _ (List.mem_filter.mpr ⟨hword, by rw [harg]; rfl⟩)
        exact .inr ⟨field, ⟨word, hother, hfield⟩, hvalue⟩
      | some value' =>
        obtain ⟨rfl, hform⟩ := h word hword value' harg
        obtain ⟨hfields, hvalue'⟩ := fieldValue?_of_param hform
        rw [hfields, List.mem_singleton] at hfield
        rw [hfield, hvalue', Option.some_inj] at hvalue
        exact .inl ⟨_, hword, hvalue ▸ harg⟩
    · exact .inr ⟨field, ⟨word, List.mem_append_right _ hword, hfield⟩, hvalue⟩
  · rintro (⟨word, hword, harg⟩ | ⟨field, ⟨word, hword, hfield⟩, hvalue⟩)
    · obtain ⟨rfl, hform⟩ := h word hword value harg
      obtain ⟨hfields, hvalue⟩ := fieldValue?_of_param hform
      exact ⟨_, ⟨_, hwords ▸ List.mem_append_left _ hword, hfields ▸ .head _⟩, hvalue⟩
    · refine ⟨field, ⟨word, hwords ▸ ?_, hfield⟩, hvalue⟩
      rcases List.mem_append.mp hword with hword | hword
      · exact List.mem_append_left _ (List.mem_of_mem_filter hword)
      · exact List.mem_append_right _ hword

/-- **`isolcpus` is read as the kernel reads it** exactly when no list has a flag, and no other
argument has a field `isolcpus=` inside that names a CPU of its own or cannot be decoded. -/
theorem isolcpus_read_iff (h : KernelForm cmdline) :
    ReadAsKernel cmdline ↔ PlainIsolcpus cmdline := by
  have hform : ∀ value ∈ isolcpusArgs cmdline, (flaggedList? value).isSome := by
    intro value hvalue
    obtain ⟨word, hword, harg⟩ := List.mem_filterMap.mp hvalue
    exact (h word hword value harg).2
  rw [ReadAsKernel, parseIsolcpus_iff]
  constructor
  · rintro ⟨hread, -⟩
    refine ⟨fun value hvalue flags items hlist => ?_, fun value hvalue => ?_⟩
    · obtain ⟨cpus, hcpus, -⟩ := hread value ((mem_fieldValues h).mpr (.inl hvalue))
      exact flags_eq_nil_of_parseCpusStr hlist hcpus
    · exact (parseCpusStr_harmless _ _).mp (hread value ((mem_fieldValues h).mpr (.inr hvalue)))
  · rintro ⟨hnoFlag, hhidden⟩
    have hdecode : ∀ value ∈ isolcpusArgs cmdline, ∀ flags items,
        flaggedList? value = some (flags, items) →
          parseCpusStr (splitText ',' value) = .ok ((items.flatMap CpuItem.cpus).map Int.ofNat) :=
      fun value hvalue flags items hlist =>
        parseCpusStr_of_flaggedList? (hnoFlag value hvalue flags items hlist ▸ hlist)
    refine ⟨fun value hvalue => ?_, fun z hz => ?_⟩
    · rcases (mem_fieldValues h).mp hvalue with hvalue | hvalue
      · obtain ⟨⟨flags, items⟩, hlist⟩ := Option.isSome_iff_exists.mp (hform value hvalue)
        exact ⟨_, hdecode value hvalue flags items hlist,
          fun z hz => ⟨value, hvalue, flags, items, hlist, hz⟩⟩
      · exact (parseCpusStr_harmless _ _).mpr (hhidden value hvalue)
    · obtain ⟨value, hvalue, flags, items, hlist, hz⟩ := hz
      exact ⟨value, (mem_fieldValues h).mpr (.inl hvalue), _,
        hdecode value hvalue flags items hlist, hz⟩

theorem isolcpus_read_plain :
    ReadAsKernel "quiet isolcpus=2-3,8 nosmt isolcpus=3,9" ↔
      PlainIsolcpus "quiet isolcpus=2-3,8 nosmt isolcpus=3,9" :=
  isolcpus_read_iff (by decide)

/-- With flags before the list `parse_isolcpus` raises. -/
theorem isolcpus_flags_raise :
    KernelForm "ro isolcpus=nohz,domain,2-3" ∧
      NamedByIsolcpus "ro isolcpus=nohz,domain,2-3" 2 ∧
      parseIsolcpus "ro isolcpus=nohz,domain,2-3" = .error (.valueError none) ∧
      ¬ ReadAsKernel "ro isolcpus=nohz,domain,2-3" := by
  have hraise : parseIsolcpus "ro isolcpus=nohz,domain,2-3" = .error (.valueError none) := by decide
  refine ⟨by decide, ?_, hraise, ?_⟩
  · exact ⟨"nohz,domain,2-3", by decide, ["nohz", "domain"], [.range 2 3], by decide, by decide⟩
  · rintro ⟨cpus, hread, -⟩
    rw [hraise] at hread
    cases hread

end Cmk
