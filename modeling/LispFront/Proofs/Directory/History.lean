import LispFront.Proofs.Directory.Lookup

/-!
# What the history of a directory says about it

Clients write to a directory by calls, one after the other, whoever makes them; so what any number
of clients do to it is one list of calls. A directory that was empty at first is determined by the
calls that succeeded: the last interning of a name gives its var, the first adding of an alias its
target.
-/

namespace LispFront

inductive Call where
  | create (ns : Symbol)
  | addAlias (ns short target : Symbol)
  | intern (ns name : Symbol) (metadata : FormMap)
  | registerClass (cls : Symbol)

namespace Directory

def call (d : Directory) : Call → Except DirectoryError Unit × Directory
  | .create ns => d.update (.create ns)
  | .addAlias ns short target => d.tryAddAlias ns short target
  | .intern ns name metadata => (d.tryIntern ns name metadata).map (Except.map fun _ => ()) id
  | .registerClass cls => d.update (.registerClass cls)

def after (d : Directory) (c : Call) : Directory := (d.call c).2

def run (d : Directory) (calls : List Call) : Directory := calls.foldl after d

/-- The calls that succeed when they are made in this order. -/
def accepted (d : Directory) : List Call → List Call
  | [] => []
  | c :: calls =>
    match (d.call c).1 with
    | .ok _ => c :: (d.after c).accepted calls
    | .error _ => (d.after c).accepted calls

theorem run_cons (d : Directory) (c : Call) (calls : List Call) :
    d.run (c :: calls) = (d.after c).run calls := rfl

theorem run_append (d : Directory) (a b : List Call) : d.run (a ++ b) = (d.run a).run b :=
  List.foldl_append

theorem call_addAlias_eq_ok {d : Directory} {ns short target : Symbol}
    (h : (d.call (.addAlias ns short target)).1 = .ok ()) :
    d.addAlias ns short target = .ok (d.after (.addAlias ns short target)) :=
  addAlias_eq_ok_iff.mpr (Prod.ext h rfl)

theorem call_intern_eq_ok {d : Directory} {ns name : Symbol} {metadata : FormMap}
    (h : (d.call (.intern ns name metadata)).1 = .ok ()) :
    ∃ v, d.intern ns name metadata = .ok (v, d.after (.intern ns name metadata)) := by
  obtain ⟨v, hv, -⟩ := map_eq_ok.mp h
  exact ⟨v, outcome_eq_ok.mpr (Prod.ext hv rfl)⟩

/-- A call that fails publishes the table as it was. -/
theorem after_of_error {d : Directory} {c : Call} {e : DirectoryError}
    (h : (d.call c).1 = .error e) : d.after c = d := by
  cases c with
  | create ns =>
    rw [call, update_create] at h
    cases h
  | addAlias ns short target => exact tryAddAlias_of_error h
  | intern ns name metadata => exact tryIntern_of_error (map_eq_error.mp h)
  | registerClass cls => cases h

theorem accepted_append (d : Directory) (a b : List Call) :
    d.accepted (a ++ b) = d.accepted a ++ (d.run a).accepted b := by
  induction a generalizing d with
  | nil => rfl
  | cons c a ih =>
    cases hc : (d.call c).1 with
    | ok _ => simp only [List.cons_append, accepted, hc, ih, run_cons]
    | error e => simp only [List.cons_append, accepted, hc, ih, run_cons]

theorem mem_accepted_iff {c : Call} (hc : ∀ d : Directory, (d.call c).1 = .ok ()) (d : Directory)
    (calls : List Call) : c ∈ d.accepted calls ↔ c ∈ calls := by
  induction calls generalizing d with
  | nil => exact Iff.rfl
  | cons c' calls ih =>
    cases h : (d.call c').1 with
    | ok _ => simp [accepted, h, ih]
    | error e =>
      have hne : c ≠ c' := by
        rintro rfl
        rw [hc d] at h
        cases h
      simp [accepted, h, ih, hne]

theorem call_create (d : Directory) (ns : Symbol) : (d.call (.create ns)).1 = .ok () := by
  rw [call, update_create]

theorem call_registerClass (d : Directory) (cls : Symbol) :
    (d.call (.registerClass cls)).1 = .ok () := rfl

end Directory

section Log

def lastInterned? (log : List Call) (ns name : Symbol) : Option FormMap :=
  log.reverse.findSome? fun
    | .intern ns' name' metadata => if ns' = ns ∧ name' = name then some metadata else none
    | _ => none

def firstTarget? (log : List Call) (ns short : Symbol) : Option Symbol :=
  log.findSome? fun
    | .addAlias ns' short' target => if ns' = ns ∧ short' = short then some target else none
    | _ => none

variable (log : List Call) (ns name short : Symbol)

theorem lastInterned?_concat (c : Call) : lastInterned? (log ++ [c]) ns name =
    match c with
    | .intern ns' name' metadata =>
      if ns' = ns ∧ name' = name then some metadata else lastInterned? log ns name
    | _ => lastInterned? log ns name := by
  simp only [lastInterned?, List.reverse_append, List.reverse_singleton, List.singleton_append,
    List.findSome?_cons]
  cases c with
  | intern ns' name' metadata => by_cases h : ns' = ns ∧ name' = name <;> simp [h]
  | _ => rfl

theorem lastInterned?_isSome_iff :
    (lastInterned? log ns name).isSome ↔ ∃ metadata, Call.intern ns name metadata ∈ log := by
  rw [lastInterned?, List.findSome?_isSome_iff]
  constructor
  · rintro ⟨c, hc, hsome⟩
    cases c with
    | intern ns' name' metadata =>
      by_cases h : ns' = ns ∧ name' = name
      · obtain ⟨rfl, rfl⟩ := h
        exact ⟨metadata, List.mem_reverse.mp hc⟩
      · simp [h] at hsome
    | _ => cases hsome
  · rintro ⟨metadata, h⟩
    exact ⟨_, List.mem_reverse.mpr h, by simp⟩

theorem firstTarget?_append (log' : List Call) :
    firstTarget? (log ++ log') ns short =
      (firstTarget? log ns short).or (firstTarget? log' ns short) :=
  List.findSome?_append

theorem firstTarget?_concat (c : Call) : firstTarget? (log ++ [c]) ns short =
    match c with
    | .addAlias ns' short' target =>
      (firstTarget? log ns short).or (if ns' = ns ∧ short' = short then some target else none)
    | _ => firstTarget? log ns short := by
  rw [firstTarget?_append]
  cases c with
  | addAlias ns' short' target =>
    by_cases h : ns' = ns ∧ short' = short <;> simp [firstTarget?, h]
  | _ => simp [firstTarget?]

end Log

namespace Directory

/-- The directory holds what the successful calls put there, and nothing else. -/
structure Records (d : Directory) (log : List Call) : Prop where
  found_iff : ∀ ns, (d.find? ns).isSome ↔ .create ns ∈ log
  named : ∀ ns n, d.find? ns = some n → n.name = ns
  mapped_iff : ∀ ns name, (d.var? ns name).isSome ↔ ∃ metadata, .intern ns name metadata ∈ log
  vars : ∀ ns name,
    d.var? ns name = (lastInterned? log ns name).map fun metadata => ⟨⟨ns, name⟩, metadata⟩
  aliases : ∀ ns short, d.aliasTarget? ns short = firstTarget? log ns short
  targets_found : ∀ ns short target,
    d.aliasTarget? ns short = some target → (d.find? target).isSome
  known_iff : ∀ cls, d.isClass cls ↔ .registerClass cls ∈ log

variable {d d' : Directory} {log : List Call} {c : Call}

theorem records_of {d : Directory} {log : List Call}
    (found_iff : ∀ ns, (d.find? ns).isSome ↔ .create ns ∈ log) (named : d.Named)
    (vars : ∀ ns name,
      d.var? ns name = (lastInterned? log ns name).map fun metadata => ⟨⟨ns, name⟩, metadata⟩)
    (aliases : ∀ ns short, d.aliasTarget? ns short = firstTarget? log ns short)
    (targets_found : ∀ ns short target,
      d.aliasTarget? ns short = some target → (d.find? target).isSome)
    (known_iff : ∀ cls, d.isClass cls ↔ .registerClass cls ∈ log) : d.Records log where
  found_iff
  named
  mapped_iff ns name := by rw [vars, Option.isSome_map, lastInterned?_isSome_iff]
  vars
  aliases
  targets_found
  known_iff

theorem records_empty : empty.Records [] :=
  records_of (by simp [find?_empty]) nofun (by simp [var?, find?_empty, lastInterned?])
    (by simp [aliasTarget?, find?_empty, firstTarget?])
    (by simp [aliasTarget?, find?_empty]) (by simp [isClass, empty])

namespace Records

variable (h : d.Records log)
include h

theorem create (ns : Symbol) : (d.create ns).Records (log ++ [.create ns]) := by
  have hfound (ns' : Symbol) :
      ((d.create ns).find? ns').isSome ↔ ns' = ns ∨ (d.find? ns').isSome := by
    rw [find?_create]
    by_cases hns : ns' = ns
    · subst hns
      cases d.find? ns' <;> simp
    · simp [hns]
  refine records_of (fun ns' => ?_) (Named.create h.named ns) (fun ns' name => ?_)
    (fun ns' short => ?_) (fun ns' short target hs => ?_) fun cls => ?_
  · rw [hfound, h.found_iff]
    simp [or_comm]
  · rw [var?_create, lastInterned?_concat, h.vars]
  · rw [aliasTarget?_create, firstTarget?_concat, h.aliases]
  · rw [aliasTarget?_create] at hs
    exact (hfound target).mpr (.inr (h.targets_found ns' short target hs))
  · rw [isClass_create, h.known_iff]
    simp

theorem addAlias {ns short target : Symbol} (hc : d.addAlias ns short target = .ok d') :
    d'.Records (log ++ [.addAlias ns short target]) := by
  obtain ⟨htarget, hfree, -⟩ := addAlias_eq_ok.mp hc
  refine records_of (fun ns' => ?_) (Named.addAlias h.named hc) (fun ns' name => ?_)
    (fun ns' s => ?_) (fun ns' s target' hs => ?_) fun cls => ?_
  · rw [isSome_find?_of_addAlias h.named hc, h.found_iff]
    simp
  · rw [var?_of_addAlias h.named hc, lastInterned?_concat, h.vars]
  · rw [aliasTarget?_of_addAlias h.named hc, firstTarget?_concat, ← h.aliases]
    -- an alias that was there before has the same target
    by_cases hs : ns' = ns ∧ s = short
    · obtain ⟨rfl, rfl⟩ := hs
      rcases hfree with hnone | hsome
      · simp [hnone]
      · simp [hsome]
    · have hs' : ¬(ns = ns' ∧ short = s) := fun hc => hs ⟨hc.1.symm, hc.2.symm⟩
      simp [hs, hs']
  · rw [isSome_find?_of_addAlias h.named hc]
    rw [aliasTarget?_of_addAlias h.named hc] at hs
    split at hs
    · cases hs
      exact htarget
    · exact h.targets_found ns' s target' hs
  · rw [isClass_of_addAlias hc, h.known_iff]
    simp

theorem intern {ns name : Symbol} {metadata : FormMap} {v : Var}
    (hc : d.intern ns name metadata = .ok (v, d')) :
    d'.Records (log ++ [.intern ns name metadata]) := by
  obtain ⟨n, hn, rfl, -⟩ := exists_put_of_intern hc
  have hname : n.name = ns := h.named ns n hn
  refine records_of (fun ns' => ?_) (Named.intern h.named hc) (fun ns' x => ?_)
    (fun ns' short => ?_) (fun ns' short target hs => ?_) fun cls => ?_
  · rw [isSome_find?_of_intern h.named hc, h.found_iff]
    simp
  · rw [var?_of_intern h.named hc, lastInterned?_concat, h.vars]
    by_cases hx : ns' = ns ∧ x = name
    · obtain ⟨rfl, rfl⟩ := hx
      simp [hname]
    · have hx' : ¬(ns = ns' ∧ name = x) := fun hc => hx ⟨hc.1.symm, hc.2.symm⟩
      simp [hx, hx']
  · rw [aliasTarget?_of_intern h.named hc, firstTarget?_concat, h.aliases]
  · rw [aliasTarget?_of_intern h.named hc] at hs
    rw [isSome_find?_of_intern h.named hc]
    exact h.targets_found ns' short target hs
  · rw [isClass_of_intern hc, h.known_iff]
    simp

theorem registerClass (cls : Symbol) :
    (d.registerClass cls).Records (log ++ [.registerClass cls]) := by
  refine records_of (fun ns' => ?_) h.named (fun ns' name => ?_) (fun ns' short => ?_)
    (fun ns' short target hs => ?_) fun cls' => ?_
  · change (d.find? ns').isSome ↔ _
    rw [h.found_iff]
    simp
  · change d.var? ns' name = _
    rw [lastInterned?_concat, h.vars]
  · change d.aliasTarget? ns' short = _
    rw [firstTarget?_concat, h.aliases]
  · exact h.targets_found ns' short target hs
  · rw [isClass_registerClass, Bool.or_eq_true, h.known_iff]
    simp [or_comm]

theorem after (hc : (d.call c).1 = .ok ()) : (d.after c).Records (log ++ [c]) := by
  cases c with
  | create ns => exact h.create ns
  | addAlias ns short target => exact h.addAlias (call_addAlias_eq_ok hc)
  | intern ns name metadata =>
    obtain ⟨v, hv⟩ := call_intern_eq_ok hc
    exact h.intern hv
  | registerClass cls => exact h.registerClass cls

theorem run (calls : List Call) : (d.run calls).Records (log ++ d.accepted calls) := by
  induction calls generalizing d log with
  | nil => simpa [accepted, Directory.run] using h
  | cons c calls ih =>
    rw [run_cons]
    cases hc : (d.call c).1 with
    | ok _ =>
      have hrest := ih (h.after hc)
      simpa [accepted, hc] using hrest
    | error e =>
      have hrest := ih h
      simpa [accepted, hc, after_of_error hc] using hrest

end Records

/-- Every namespace and every var stands where its names say, as in every directory that calls made
of an empty one. -/
structure Consistent (d : Directory) : Prop where
  named : d.Named
  vars : ∀ ns name v, d.var? ns name = some v → v.id = ⟨ns, name⟩

theorem Records.consistent (h : d.Records log) : d.Consistent where
  named := h.named
  vars ns name v hv := by
    rw [h.vars] at hv
    obtain ⟨metadata, -, rfl⟩ := Option.map_eq_some_iff.mp hv
    rfl

/-- Whatever could be found in `d` can be found in `d'`, and is what it was. -/
structure Extends (d d' : Directory) : Prop where
  namespaces : ∀ ns n, d.find? ns = some n → ∃ n', d'.find? ns = some n' ∧ n'.name = n.name
  vars : ∀ ns name v, d.var? ns name = some v → ∃ v', d'.var? ns name = some v' ∧ v'.id = v.id
  aliases : ∀ ns short target,
    d.aliasTarget? ns short = some target → d'.aliasTarget? ns short = some target
  classes : ∀ cls, d.isClass cls → d'.isClass cls

theorem found_of_named (hd : d.Named) (hd' : d'.Named)
    (h : ∀ ns, (d.find? ns).isSome → (d'.find? ns).isSome) (ns : Symbol) (n : Namespace)
    (hn : d.find? ns = some n) : ∃ n', d'.find? ns = some n' ∧ n'.name = n.name := by
  obtain ⟨n', hn'⟩ := Option.isSome_iff_exists.mp (h ns (Option.isSome_of_mem hn))
  exact ⟨n', hn', by rw [hd ns n hn, hd' ns n' hn']⟩

theorem Records.extends {log' : List Call} (h : d.Records log) (h' : d'.Records (log ++ log')) :
    d.Extends d' where
  namespaces := found_of_named h.named h'.named fun ns hns => by
    rw [h'.found_iff]
    exact List.mem_append_left _ ((h.found_iff ns).mp hns)
  vars ns name v hv := by
    obtain ⟨metadata, hm⟩ := (h.mapped_iff ns name).mp (by simp [hv])
    have hsome := (h'.mapped_iff ns name).mpr ⟨metadata, List.mem_append_left _ hm⟩
    obtain ⟨v', hv'⟩ := Option.isSome_iff_exists.mp hsome
    exact ⟨v', hv', by rw [h'.consistent.vars ns name v' hv', h.consistent.vars ns name v hv]⟩
  aliases ns short target ht := by
    rw [h.aliases] at ht
    rw [h'.aliases, firstTarget?_append, ht]
    rfl
  classes cls hcls := by
    rw [h'.known_iff]
    exact List.mem_append_left _ ((h.known_iff cls).mp hcls)

/-- Calls on an empty directory leave what their log says; a failing one changes nothing, and later
ones take nothing away. Creating a namespace and registering a class never fail. -/
theorem records_run_empty (calls : List Call) :
    (empty.run calls).Records (empty.accepted calls) ∧
      (∀ ns, ((empty.run calls).find? ns).isSome ↔ .create ns ∈ calls) ∧
      (∀ cls, (empty.run calls).isClass cls ↔ .registerClass cls ∈ calls) ∧
      (∀ c e, ((empty.run calls).call c).1 = .error e →
        empty.run (calls ++ [c]) = empty.run calls) ∧
      ∀ later, (empty.run calls).Extends (empty.run (calls ++ later)) := by
  have hrecords := records_empty.run calls
  rw [List.nil_append] at hrecords
  refine ⟨hrecords, fun ns => ?_, fun cls => ?_, fun c e he => ?_, fun later => ?_⟩
  · rw [hrecords.found_iff, mem_accepted_iff fun d => call_create d ns]
  · rw [hrecords.known_iff, mem_accepted_iff fun d => call_registerClass d cls]
  · rw [run_append]
    exact after_of_error he
  · have hlater := records_empty.run (calls ++ later)
    rw [List.nil_append, accepted_append] at hlater
    exact hrecords.extends hlater

-- the alias is refused, and the var has the metadata it was given last
example :
    let d := empty.run [.create (.plain "a"), .addAlias (.plain "a") (.plain "s") (.plain "b"),
      .intern (.plain "a") (.plain "x") [], .intern (.plain "a") (.plain "x") [(.key "doc", .nil)]]
    d.aliasTarget? (.plain "a") (.plain "s") = none ∧
      d.var? (.plain "a") (.plain "x") =
        some ⟨⟨.plain "a", .plain "x"⟩, [(.key "doc", .nil)]⟩ :=
  ⟨rfl, rfl⟩

end Directory

end LispFront
