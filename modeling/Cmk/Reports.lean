import Cmk.ClusterInit.DaemonSets
import Cmk.Machinery.Json

/-!
# Reports — the objects in which the nodes publish their reports

A report is saved under a name made from the node's: `ldh_convert_check` puts a dash for whatever
such a name may not hold.  `save` takes a conflict for a report of its own and removes what is
there; so the reports of two nodes are safe from each other exactly when their names differ
elsewhere than in dots and dashes (`reports_kept_iff`).
-/

open Machinery

namespace Cmk

/-! ## The names of the objects -/

def isAlnum (c : Char) : Bool := c.isLower || c.isDigit

/-- What a character of a name becomes: `lower`, and then a dash for any but `[-a-z0-9]`.  Two
characters beyond ASCII have an ASCII letter in lower case. -/
def ldhChars (c : Char) : List Char :=
  if c.isUpper then [c.toLower]
  else if isAlnum c || c = '-' then [c]
  else if c.toNat = 0x212a then ['k']
  else if c.toNat = 0x130 then ['i', '-']
  else ['-']

def ldhConvertCheck (name : String) : Except PyErr String :=
  let nameCon := name.toList.flatMap ldhChars
  if nameCon.head?.any isAlnum && nameCon.getLast?.any isAlnum then .ok (String.ofList nameCon)
  else .error (.systemExit 1)

example : ldhConvertCheck "MINION.1@.#10.12.56.78" = .ok "minion-1---10-12-56-78" := by decide

/-! ## Saving an object -/

inductive ReportKind
  | nodeReport
  | reconcileReport
deriving DecidableEq

/-- An object to be saved; its body is as it is sent at a time. -/
structure CustomObject where
  name : String
  resourcePath : String
  body : String → JsonValue

/-- `CustomResourceDefinition`, for a type of the group `intel.com`. -/
def customResourceDefinition (typeName kindName nodeName : String) (report : JsonValue) :
    Except PyErr CustomObject := do
  let name ← ldhConvertCheck nodeName
  return {
    name := name
    resourcePath := joinWith "/" ["/apis", "intel.com", "v1", "namespaces", "default",
      typeName ++ "s"]
    body := fun _ => .obj [("apiVersion", .str "intel.com/v1"), ("kind", .str kindName),
      ("metadata", .obj [("name", .str name)]), ("spec", .obj [("report", report)])] }

/-- `ThirdPartyResource`, for a type of `cmk.intel.com`. -/
def thirdPartyResource (typeName kindName nodeName : String) (report : JsonValue) :
    Except PyErr CustomObject := do
  let name ← ldhConvertCheck nodeName
  return {
    name := name
    resourcePath := joinWith "/" ["/apis", "cmk.intel.com", "v1", "namespaces", "default",
      typeName ++ "s"]
    body := fun now => .obj [("apiVersion", .str "cmk.intel.com/v1"), ("kind", .str kindName),
      ("metadata", .obj [("name", .str name)]), ("report", report), ("last_updated", .str now)] }

/-- The object of a report, by the API the server has. -/
def reportObject (crd : Bool) (kind : ReportKind) (nodeName : String) (report : JsonValue) :
    Except PyErr CustomObject :=
  match crd, kind with
  | true, .nodeReport =>
    customResourceDefinition "cmk-nodereport" "Cmk-nodereport" nodeName report
  | true, .reconcileReport =>
    customResourceDefinition "cmk-reconcilereport" "Cmk-reconcilereport" nodeName report
  | false, .nodeReport => thirdPartyResource "nodereport" "Nodereport" nodeName report
  | false, .reconcileReport =>
    thirdPartyResource "reconcilereport" "Reconcilereport" nodeName report

/-- The call `save` makes next. -/
inductive SavePoint
  | create
  | remove
  | createAgain
deriving DecidableEq

/-- What `save` does with the answer: make another call, or end. -/
def SavePoint.next : SavePoint → Except ℕ Unit → SavePoint ⊕ Except PyErr Unit
  | .create, .ok () => .inr (.ok ())
  | .create, .error status =>
    if status = 404 then .inr (.ok ())
    else if status = 405 then .inr (.ok ())
    else if status ≠ 409 then .inr (.error .apiException)
    else .inl .remove
  | .remove, .ok () => .inl .createAgain
  | .remove, .error status =>
    if status ≠ 404 then .inr (.error .apiException) else .inl .createAgain
  | .createAgain, .ok () => .inr (.ok ())
  | .createAgain, .error _ => .inr (.error .apiException)

/-! ## The server and its clients -/

/-- A report on the server, with the node it is of. -/
structure SavedReport where
  node : NodeName
  body : JsonValue

/-- The objects on the server, by resource path and name. -/
abbrev ReportStore := String × String → Option SavedReport

/-- The call of a save, and its answer. -/
def ReportStore.call (store : ReportStore) (slot : String × String) (saved : SavedReport) :
    SavePoint → Except ℕ Unit × ReportStore
  | .remove =>
    if (store slot).isSome then (.ok (), Function.update store slot none) else (.error 404, store)
  | .create | .createAgain =>
    if (store slot).isSome then (.error 409, store)
    else (.ok (), Function.update store slot (some saved))

/-- The answer to it; the server may refuse any call with a status of its own. -/
def ReportStore.answer (store : ReportStore) (fault : Option ℕ) (slot : String × String)
    (saved : SavedReport) (point : SavePoint) : Except ℕ Unit × ReportStore :=
  match fault with
  | some status => (.error status, store)
  | none => store.call slot saved point

/-- A report that a node saves once. -/
structure SaveJob where
  node : NodeName
  crd : Bool
  kind : ReportKind
  report : JsonValue

def SaveJob.object (job : SaveJob) : Except PyErr CustomObject :=
  reportObject job.crd job.kind job.node.name job.report

/-- The server, and how far every save is. -/
structure Publishing (ι : Type) where
  store : ReportStore
  point : ι → SavePoint ⊕ Except PyErr Unit

/-- A save makes its next call. -/
structure SaveEvent (ι : Type) where
  job : ι
  fault : Option ℕ
  now : String

variable {ι : Type} [DecidableEq ι]

def Publishing.init (jobs : ι → SaveJob) : Publishing ι where
  store _ := none
  point i := match (jobs i).object with
    | .ok _ => .inl .create
    | .error err => .inr (.error err)

def Publishing.step (jobs : ι → SaveJob) (s : Publishing ι) (e : SaveEvent ι) : Publishing ι :=
  match s.point e.job, (jobs e.job).object with
  | .inl point, .ok object =>
    let answered := s.store.answer e.fault (object.resourcePath, object.name)
      ⟨(jobs e.job).node, object.body e.now⟩ point
    ⟨answered.2, Function.update s.point e.job (point.next answered.1)⟩
  | _, _ => s

/-- Any interleaving of the calls. -/
def Publishing.run (jobs : ι → SaveJob) (events : List (SaveEvent ι)) : Publishing ι :=
  events.foldl (Publishing.step jobs) (Publishing.init jobs)

/-- The objects of the two nodes have names of their own. -/
def ObjectNamesDiffer (a b : NodeName) : Prop :=
  ∃ x y, ldhConvertCheck a.name = .ok x ∧ ldhConvertCheck b.name = .ok y ∧ x ≠ y

/-- No save of node `a` deletes or replaces a report of node `b`, whatever saves there are. -/
def NeverOverwrites (a b : NodeName) : Prop :=
  ∀ (ι : Type) [DecidableEq ι] (jobs : ι → SaveJob) (events : List (SaveEvent ι))
    (e : SaveEvent ι) (slot : String × String) (saved : SavedReport),
    (jobs e.job).node = a → saved.node = b →
      (Publishing.run jobs events).store slot = some saved →
        ((Publishing.run jobs events).step jobs e).store slot = some saved

/-- The names differ in length, or somewhere other than by a dot against a dash. -/
def DifferElsewhere (a b : String) : Prop :=
  a.length ≠ b.length ∨ ∃ (i : ℕ) (c d : Char), a.toList[i]? = some c ∧ b.toList[i]? = some d ∧
    c ≠ d ∧ ¬ (c ∈ ['.', '-'] ∧ d ∈ ['.', '-'])

/-! ## Names of nodes as names of objects -/

/-- What a character of a node's name becomes. -/
def dash (c : Char) : Char := if c = '.' then '-' else c

/-- A character of a part of a node's name. -/
def isLabelChar (c : Char) : Bool := isAlnum c || c = '-'

theorem dash_eq_dash_iff {c d : Char} :
    dash c = dash d ↔ c = d ∨ c ∈ ['.', '-'] ∧ d ∈ ['.', '-'] := by
  simp only [dash, List.mem_cons, List.not_mem_nil, or_false]
  by_cases hc : c = '.' <;> by_cases hd : d = '.'
  · simp [hc, hd]
  · simp only [hc, hd, if_true, if_false, true_or, true_and, false_or]
    exact ⟨fun h => .inr h.symm, fun h => h.elim (fun h => absurd h.symm hd) Eq.symm⟩
  · simp [hc, hd]
  · simp only [hc, hd, if_false, false_or]
    exact ⟨.inl, fun h => h.elim id fun h => h.1.trans h.2.symm⟩

/-- **Two names become one** when they differ nowhere but in dots and dashes. -/
theorem map_dash_eq_iff {a b : String} :
    a.toList.map dash = b.toList.map dash ↔ ¬ DifferElsewhere a b := by
  rw [DifferElsewhere, not_or, not_not, ← String.length_toList, ← String.length_toList]
  constructor
  · intro h
    refine ⟨by simpa using congrArg List.length h, ?_⟩
    rintro ⟨i, c, d, hc, hd, hne, hsep⟩
    have hi := congrArg (·[i]?) h
    rw [List.getElem?_map, List.getElem?_map, hc, hd, Option.map_some, Option.map_some,
      Option.some_inj, dash_eq_dash_iff] at hi
    exact hi.elim hne hsep
  · rintro ⟨hlen, hno⟩
    refine List.ext_getElem (by simpa using hlen) fun i hi hi' => ?_
    rw [List.length_map] at hi hi'
    rw [List.getElem_map, List.getElem_map, dash_eq_dash_iff]
    by_contra hdiff
    obtain ⟨hne, hsep⟩ := not_or.mp hdiff
    exact hno ⟨i, _, _, List.getElem?_eq_getElem hi, List.getElem?_eq_getElem hi', hne, hsep⟩

theorem isUpper_of_isLabelChar {c : Char} (h : isLabelChar c = true) : c.isUpper = false := by
  rw [Bool.eq_false_iff]
  intro hup
  obtain ⟨hl, hu⟩ := toNat_of_isUpper hup
  simp only [isLabelChar, isAlnum, Bool.or_eq_true, decide_eq_true_eq] at h
  rcases h with (h | h) | rfl
  · have hlower := toNat_of_isLower h
    omega
  · have hd := toNat_of_isDigit h
    omega
  · exact absurd hl (by decide)

theorem ldhChars_eq {c : Char} (h : c = '.' ∨ isLabelChar c = true) : ldhChars c = [dash c] := by
  rcases h with rfl | h
  · rfl
  · have hdot : c ≠ '.' := by
      rintro rfl
      exact absurd h (by decide)
    rw [ldhChars, isUpper_of_isLabelChar h, if_neg Bool.false_ne_true, dash, if_neg hdot]
    exact if_pos h

/-- The characters of a part: letters and digits at both ends. -/
theorem ends_of_isNodeLabel {label : String} (h : IsNodeLabel label) :
    (∀ c ∈ label.toList, isLabelChar c = true) ∧ label.toList.head?.any isAlnum = true ∧
      label.toList.getLast?.any isAlnum = true := by
  obtain ⟨hne, hall, hhead, hlast⟩ := h
  have hchars : ∀ c ∈ label.toList, isLabelChar c = true := List.all_eq_true.mp hall
  have halnum : ∀ c ∈ label.toList, c ≠ '-' → isAlnum c = true := fun c hc hdash => by
    simpa [isLabelChar, hdash] using hchars c hc
  have hlist : label.toList ≠ [] := by simpa using hne
  refine ⟨hchars, ?_, ?_⟩
  · rw [List.head?_eq_some_head hlist] at hhead ⊢
    exact halnum _ (List.head_mem hlist) fun h => hhead (congrArg some h)
  · rw [List.getLast?_eq_some_getLast hlist] at hlast ⊢
    exact halnum _ (List.getLast_mem hlist) fun h => hlast (congrArg some h)

/-- So are the ends of a name. -/
theorem ends_of_labels {labels : List String} (hne : labels ≠ [])
    (h : ∀ label ∈ labels, IsNodeLabel label) :
    (joinText '.' labels).toList.head?.any isAlnum = true ∧
      (joinText '.' labels).toList.getLast?.any isAlnum = true := by
  induction labels with
  | nil => exact absurd rfl hne
  | cons label labels ih =>
    obtain ⟨hlabel, hlabels⟩ := List.forall_mem_cons.mp h
    obtain ⟨-, hhead, hlast⟩ := ends_of_isNodeLabel hlabel
    by_cases hnil : labels = []
    · rw [hnil, joinText_singleton]
      exact ⟨hhead, hlast⟩
    · obtain ⟨-, htail⟩ := ih hnil hlabels
      rw [joinText_cons '.' label hnil, String.toList_append, String.toList_append,
        List.append_assoc]
      constructor
      · rw [List.head?_append]
        cases hc : label.toList.head? with
        | none => simp [hc] at hhead
        | some c => simpa [hc] using hhead
      · rw [← List.append_assoc, List.getLast?_append]
        cases hc : (joinText '.' labels).toList.getLast? with
        | none => simp [hc] at htail
        | some c => simpa [hc] using htail

/-- A letter or digit stays one. -/
theorem any_map_dash {o : Option Char} (h : o.any isAlnum = true) :
    (o.map dash).any isAlnum = true := by
  cases o with
  | none => cases h
  | some c =>
    have hdot : c ≠ '.' := by
      rintro rfl
      exact absurd h (by decide)
    rwa [Option.map_some, dash, if_neg hdot]

theorem char_of_isNodeName {name : String} (h : IsNodeName name) {c : Char}
    (hc : c ∈ name.toList) : c = '.' ∨ isLabelChar c = true := by
  refine or_iff_not_imp_left.mpr fun hdot => ?_
  rw [← joinText_splitText '.' name, mem_joinText hdot] at hc
  obtain ⟨label, hlabel, hc⟩ := hc
  exact (ends_of_isNodeLabel (h.2 label hlabel)).1 c hc

/-- **The name of every node is accepted**; its dots become dashes. -/
theorem ldhConvertCheck_nodeName (a : NodeName) :
    ldhConvertCheck a.name = .ok (String.ofList (a.name.toList.map dash)) := by
  have hcon : a.name.toList.flatMap ldhChars = a.name.toList.map dash := by
    rw [List.map_eq_flatMap]
    exact List.flatMap_congr fun c hc => ldhChars_eq (char_of_isNodeName a.valid hc)
  obtain ⟨hhead, hlast⟩ := ends_of_labels (splitText_ne_nil '.' a.name) a.valid.2
  rw [joinText_splitText] at hhead hlast
  rw [ldhConvertCheck, hcon, List.head?_map, List.getLast?_map, any_map_dash hhead,
    any_map_dash hlast]
  rfl

/-- **Two nodes get one object name** when their names differ nowhere else. -/
theorem objectNamesDiffer_iff (a b : NodeName) :
    ObjectNamesDiffer a b ↔ DifferElsewhere a.name b.name := by
  rw [← not_iff_not, ← map_dash_eq_iff, ← String.ofList_inj, ObjectNamesDiffer,
    ldhConvertCheck_nodeName, ldhConvertCheck_nodeName]
  simp

/-! ## One call of a save -/

variable {jobs : ι → SaveJob} {s : Publishing ι} {e : SaveEvent ι} {slot slot' : String × String}
  {saved saved' : SavedReport} {store : ReportStore}

/-- A call changes no other slot. -/
theorem ReportStore.answer_of_ne (fault : Option ℕ) (point : SavePoint) (h : slot' ≠ slot) :
    (store.answer fault slot saved point).2 slot' = store slot' := by
  cases fault with
  | some status => rfl
  | none =>
    cases point <;> simp only [ReportStore.answer, ReportStore.call] <;> split <;>
      simp [Function.update_of_ne h]

/-- What is in the slot of a call was there, or is what the call saves. -/
theorem ReportStore.mem_answer (fault : Option ℕ) (point : SavePoint)
    (h : (store.answer fault slot saved point).2 slot = some saved') :
    store slot = some saved' ∨ saved' = saved := by
  cases fault with
  | some status => exact .inl h
  | none =>
    cases point <;> simp only [ReportStore.answer, ReportStore.call] at h <;> split at h <;>
      simp_all

/-- The object of a report has the name made from the node's. -/
theorem name_of_object {job : SaveJob} {object : CustomObject} (h : job.object = .ok object) :
    ldhConvertCheck job.node.name = .ok object.name := by
  obtain ⟨node, crd, kind, report⟩ := job
  cases crd <;> cases kind <;> obtain ⟨name, hname, h⟩ := bind_eq_ok.mp h <;>
    obtain rfl := pure_eq_ok.mp h <;> exact hname

/-- **What an event does to the objects**: nothing, or a call on the slot of its job. -/
theorem Publishing.step_cases (jobs : ι → SaveJob) (s : Publishing ι) (e : SaveEvent ι) :
    (s.step jobs e).store = s.store ∨ ∃ object point, (jobs e.job).object = .ok object ∧
      (s.step jobs e).store = (s.store.answer e.fault (object.resourcePath, object.name)
        ⟨(jobs e.job).node, object.body e.now⟩ point).2 := by
  unfold Publishing.step
  split
  · rename_i point object _ hobject
    exact .inr ⟨object, point, hobject, rfl⟩
  · exact .inl rfl

/-! ## Runs -/

/-- Every report is under the name made from its node's. -/
def Publishing.Named (s : Publishing ι) : Prop :=
  ∀ slot saved, s.store slot = some saved → ldhConvertCheck saved.node.name = .ok slot.2

theorem Publishing.Named.step (h : s.Named) (e : SaveEvent ι) : (s.step jobs e).Named := by
  intro slot saved hsaved
  rcases Publishing.step_cases jobs s e with hstore | ⟨object, point, hobject, hstore⟩
  · exact h slot saved (hstore ▸ hsaved)
  · rw [hstore] at hsaved
    by_cases hslot : slot = (object.resourcePath, object.name)
    · subst hslot
      rcases ReportStore.mem_answer e.fault point hsaved with hold | rfl
      · exact h _ saved hold
      · exact name_of_object hobject
    · rw [ReportStore.answer_of_ne e.fault point hslot] at hsaved
      exact h slot saved hsaved

theorem Publishing.Named.foldl (h : s.Named) (events : List (SaveEvent ι)) :
    (events.foldl (Publishing.step jobs) s).Named := by
  induction events generalizing s with
  | nil => exact h
  | cons e events ih => exact ih (h.step e)

theorem Publishing.named_run (jobs : ι → SaveJob) (events : List (SaveEvent ι)) :
    (Publishing.run jobs events).Named :=
  have hinit : (Publishing.init jobs).Named := fun _ _ h => by cases h
  hinit.foldl events

/-- **Names of their own keep the reports apart**, in every run. -/
theorem neverOverwrites_of_differ {a b : NodeName} (h : ObjectNamesDiffer a b) :
    NeverOverwrites a b := by
  intro ι _ jobs events e slot saved ha hb hsaved
  obtain ⟨x, y, hx, hy, hne⟩ := h
  have hslot := Publishing.named_run jobs events slot saved hsaved
  rw [hb, hy, Except.ok.injEq] at hslot
  rcases Publishing.step_cases jobs (Publishing.run jobs events) e with
    hstore | ⟨object, point, hobject, hstore⟩
  · rwa [hstore]
  · have hname := name_of_object hobject
    rw [ha, hx, Except.ok.injEq] at hname
    have hother : slot ≠ (object.resourcePath, object.name) := by
      rintro rfl
      exact hne (hname.trans hslot.symm)
    rwa [hstore, ReportStore.answer_of_ne e.fault point hother]

/-- **Under one name a report is deleted** by the next node that saves its own. -/
theorem overwrites_of_eq {a b : NodeName} {name : String} (ha : ldhConvertCheck a.name = .ok name)
    (hb : ldhConvertCheck b.name = .ok name) : ¬ NeverOverwrites a b := by
  let jobs : Bool → SaveJob := fun other => ⟨if other then b else a, true, .nodeReport, .null⟩
  obtain ⟨object, hobject⟩ : ∃ object, ∀ i, (jobs i).object = .ok object :=
    ⟨_, Bool.forall_bool.mpr ⟨bind_eq_ok.mpr ⟨name, ha, rfl⟩, bind_eq_ok.mpr ⟨name, hb, rfl⟩⟩⟩
  let slot : String × String := (object.resourcePath, object.name)
  -- `b` has saved its report, and `a` has been told of a conflict
  let s : Publishing Bool := {
    store := Function.update (fun _ => none) slot (some ⟨(jobs true).node, object.body ""⟩)
    point := Function.update (Function.update (fun _ => .inl .create) true (.inr (.ok ()))) false
      (.inl .remove) }
  have hrun : Publishing.run jobs [⟨true, none, ""⟩, ⟨false, none, ""⟩] = s := by
    simp [Publishing.run, Publishing.init, Publishing.step, hobject, ReportStore.answer,
      ReportStore.call, SavePoint.next, s, slot]
  have hsaved : s.store slot = some ⟨(jobs true).node, object.body ""⟩ := by simp [s]
  have hlost : (s.step jobs ⟨false, none, ""⟩).store slot = none := by
    simp [Publishing.step, hobject, ReportStore.answer, ReportStore.call, s, slot]
  intro hnever
  have hkept := hnever Bool jobs [⟨true, none, ""⟩, ⟨false, none, ""⟩] ⟨false, none, ""⟩ slot _
    rfl rfl (hrun ▸ hsaved)
  rw [hrun, hlost] at hkept
  cases hkept

/-- **A node leaves the reports of another alone** exactly when their names differ elsewhere than in
dots and dashes. -/
theorem neverOverwrites_iff (a b : NodeName) :
    NeverOverwrites a b ↔ DifferElsewhere a.name b.name := by
  rw [← objectNamesDiffer_iff]
  refine ⟨fun h => ?_, neverOverwrites_of_differ⟩
  refine ⟨_, _, ldhConvertCheck_nodeName a, ldhConvertCheck_nodeName b, fun hsame => ?_⟩
  have hb := ldhConvertCheck_nodeName b
  rw [← hsame] at hb
  exact overwrites_of_eq (ldhConvertCheck_nodeName a) hb h

/-- **The reports of two nodes are safe from each other**, and have names of their own, exactly when
the nodes' names differ in length or somewhere other than by a dot against a dash. -/
theorem reports_kept_iff (a b : NodeName) :
    (ObjectNamesDiffer a b ∧ NeverOverwrites a b ∧ NeverOverwrites b a ↔
      DifferElsewhere a.name b.name) ∧
    (NeverOverwrites a b ↔ DifferElsewhere a.name b.name) := by
  have hnames := objectNamesDiffer_iff a b
  refine ⟨⟨fun h => hnames.mp h.1, fun h => ?_⟩, neverOverwrites_iff a b⟩
  obtain ⟨x, y, hx, hy, hne⟩ := hnames.mpr h
  exact ⟨hnames.mpr h, (neverOverwrites_iff a b).mpr h,
    neverOverwrites_of_differ ⟨y, x, hy, hx, hne.symm⟩⟩

/-- A dot in one name, a dash in the other. -/
theorem report_of_other_node_deleted :
    (⟨"rack.1", by decide⟩ : NodeName) ≠ ⟨"rack-1", by decide⟩ ∧
      ldhConvertCheck "rack.1" = .ok "rack-1" ∧ ldhConvertCheck "rack-1" = .ok "rack-1" ∧
      ¬ NeverOverwrites ⟨"rack.1", by decide⟩ ⟨"rack-1", by decide⟩ := by
  have hdot : ldhConvertCheck "rack.1" = .ok "rack-1" := by decide
  have hdash : ldhConvertCheck "rack-1" = .ok "rack-1" := by decide
  refine ⟨fun h => ?_, hdot, hdash, overwrites_of_eq hdot hdash⟩
  exact absurd (congrArg NodeName.name h) (by decide)

end Cmk
