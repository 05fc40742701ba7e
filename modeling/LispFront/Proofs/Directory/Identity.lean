import LispFront.Proofs.Directory.History
import LispFront.Tree.Equality

/-!
# Which vars are the same

Two vars are the same if their namespaces and their names are. The qualified symbol of a var has
room for the name of its namespace, but not for what that name may be qualified with itself. So it
tells the vars of a directory apart as long as no two namespaces differ in their qualifier only.
-/

namespace LispFront

theorem Symbol.eq_of {a b : Symbol} (hns : a.ns = b.ns) (hname : a.name = b.name) : a = b := by
  cases a
  cases b
  exact congr (congrArg Symbol.mk hns) hname

theorem Var.beq_iff {v w : Var} : v.beq w ↔ v.id = w.id := beq_iff_eq

namespace VarName

variable {a b : VarName}

theorem qualifiedSymbol_eq_iff :
    a.qualifiedSymbol = b.qualifiedSymbol ↔ a.ns.name = b.ns.name ∧ a.name.name = b.name.name := by
  simp [qualifiedSymbol, Symbol.qualified]

theorem eq_iff_of_unqualified (ha : a.name.ns = none) (hb : b.name.ns = none) :
    a = b ↔ a.qualifiedSymbol = b.qualifiedSymbol ∧ a.ns.ns = b.ns.ns := by
  constructor
  · rintro rfl
    exact ⟨rfl, rfl⟩
  · rintro ⟨hsymbol, hqualifier⟩
    obtain ⟨hns, hname⟩ := qualifiedSymbol_eq_iff.mp hsymbol
    have hns' : a.ns = b.ns := Symbol.eq_of hqualifier hns
    have hname' : a.name = b.name := Symbol.eq_of (ha.trans hb.symm) hname
    cases a
    cases b
    exact congr (congrArg VarName.mk hns') hname'

end VarName

namespace Directory

def Maps (d : Directory) (v : Var) : Prop := ∃ ns name, d.var? ns name = some v

/-- The qualified symbols of the vars say which of them are the same. -/
def Identifies (d : Directory) : Prop :=
  ∀ v w, d.Maps v → d.Maps w → (v.beq w ↔ v.id.qualifiedSymbol = w.id.qualifiedSymbol)

/-- No name is interned in two namespaces that only a qualifier tells apart. -/
def ToldApart (log : List Call) : Prop :=
  ∀ ns ns' name metadata metadata', .intern ns name metadata ∈ log →
    .intern ns' name metadata' ∈ log → ns.name = ns'.name → ns = ns'

variable {d : Directory} {log calls : List Call} {v w : Var} {ns name : Symbol} {metadata : FormMap}

theorem call_of_mem_accepted {c : Call} (h : c ∈ d.accepted calls) :
    ∃ d' : Directory, (d'.call c).1 = .ok () := by
  induction calls generalizing d with
  | nil => cases h
  | cons c' calls ih =>
    cases hc : (d.call c').1 with
    | error e => exact ih (d := d.after c') (by simpa [accepted, hc] using h)
    | ok _ =>
      simp only [accepted, hc, List.mem_cons] at h
      rcases h with rfl | h
      · exact ⟨d, hc⟩
      · exact ih h

theorem unqualified_of_mem_accepted (h : .intern ns name metadata ∈ d.accepted calls) :
    name.ns = none := by
  obtain ⟨d', hc⟩ := call_of_mem_accepted h
  obtain ⟨v, hv⟩ := call_intern_eq_ok hc
  exact (intern_eq_ok.mp hv).1

namespace Records

variable (h : d.Records log)
include h

theorem interned_of_maps (hv : d.Maps v) :
    ∃ metadata, .intern v.id.ns v.id.name metadata ∈ log := by
  obtain ⟨ns, name, hv⟩ := hv
  rw [h.consistent.vars ns name v hv]
  exact (h.mapped_iff ns name).mp (Option.isSome_of_mem hv)

theorem maps_of_interned (hm : .intern ns name metadata ∈ log) :
    ∃ v, d.Maps v ∧ v.id = ⟨ns, name⟩ := by
  obtain ⟨v, hv⟩ := Option.isSome_iff_exists.mp ((h.mapped_iff ns name).mpr ⟨metadata, hm⟩)
  exact ⟨v, ⟨ns, name, hv⟩, h.consistent.vars ns name v hv⟩

theorem created_of_interned (hm : .intern ns name metadata ∈ log) : .create ns ∈ log := by
  obtain ⟨v, hv⟩ := Option.isSome_iff_exists.mp ((h.mapped_iff ns name).mpr ⟨metadata, hm⟩)
  obtain ⟨n, hn, -⟩ := Option.bind_eq_some_iff.mp hv
  exact (h.found_iff ns).mp (Option.isSome_of_mem hn)

end Records

section Run

variable (calls)

theorem records_run : (empty.run calls).Records (empty.accepted calls) := by
  simpa using records_empty.run calls

variable {calls}

theorem unqualified_of_maps (hv : (empty.run calls).Maps v) : v.id.name.ns = none := by
  obtain ⟨metadata, hm⟩ := (records_run calls).interned_of_maps hv
  exact unqualified_of_mem_accepted hm

theorem beq_iff_of_maps (hv : (empty.run calls).Maps v) (hw : (empty.run calls).Maps w) :
    v.beq w ↔ v.id.qualifiedSymbol = w.id.qualifiedSymbol ∧ v.id.ns.ns = w.id.ns.ns := by
  rw [Var.beq_iff]
  exact VarName.eq_iff_of_unqualified (unqualified_of_maps hv) (unqualified_of_maps hw)

theorem toldApart_of_identifies (h : (empty.run calls).Identifies) :
    ToldApart (empty.accepted calls) := by
  intro ns ns' name metadata metadata' hm hm' hname
  obtain ⟨v, hv, hid⟩ := (records_run calls).maps_of_interned hm
  obtain ⟨w, hw, hid'⟩ := (records_run calls).maps_of_interned hm'
  have hsymbol : v.id.qualifiedSymbol = w.id.qualifiedSymbol := by
    rw [VarName.qualifiedSymbol_eq_iff, hid, hid']
    exact ⟨hname, rfl⟩
  have heq : v.id = w.id := Var.beq_iff.mp ((h v w hv hw).mpr hsymbol)
  rw [hid, hid'] at heq
  exact congrArg VarName.ns heq

theorem identifies_of_toldApart (h : ToldApart (empty.accepted calls)) :
    (empty.run calls).Identifies := by
  intro v w hv hw
  rw [beq_iff_of_maps hv hw]
  refine ⟨And.left, fun hsymbol => ⟨hsymbol, ?_⟩⟩
  obtain ⟨hns, hname⟩ := VarName.qualifiedSymbol_eq_iff.mp hsymbol
  have hsame : v.id.name = w.id.name :=
    Symbol.eq_of ((unqualified_of_maps hv).trans (unqualified_of_maps hw).symm) hname
  obtain ⟨metadata, hm⟩ := (records_run calls).interned_of_maps hv
  obtain ⟨metadata', hm'⟩ := (records_run calls).interned_of_maps hw
  rw [hsame] at hm
  exact congrArg Symbol.ns (h _ _ _ _ _ hm hm' hns)

theorem toldApart_of_unqualified (h : ∀ ns, .create ns ∈ calls → ns.ns = none) :
    ToldApart (empty.accepted calls) := by
  have hcreated : ∀ ns name metadata, .intern ns name metadata ∈ empty.accepted calls →
      ns.ns = none := by
    intro ns name metadata hm
    have hns := (records_run calls).created_of_interned hm
    exact h ns ((mem_accepted_iff (fun d => call_create d ns) _ _).mp hns)
  intro ns ns' name metadata metadata' hm hm' hname
  exact Symbol.eq_of ((hcreated _ _ _ hm).trans (hcreated _ _ _ hm').symm) hname

end Run

/-- Vars are the same exactly if their qualified symbols agree and their namespaces have the same
qualifier. So the qualified symbols alone decide it exactly if no name was interned in two
namespaces that differ by a qualifier, as when all namespaces are created unqualified. -/
theorem vars_identified_iff (calls : List Call) :
    (∀ v w, (empty.run calls).Maps v → (empty.run calls).Maps w →
      (v.beq w ↔ v.id.qualifiedSymbol = w.id.qualifiedSymbol ∧ v.id.ns.ns = w.id.ns.ns)) ∧
    ((empty.run calls).Identifies ↔ ToldApart (empty.accepted calls)) ∧
    ((∀ ns, .create ns ∈ calls → ns.ns = none) → (empty.run calls).Identifies) := by
  refine ⟨fun v w hv hw => beq_iff_of_maps hv hw,
    ⟨toldApart_of_identifies, identifies_of_toldApart⟩, fun h => ?_⟩
  exact identifies_of_toldApart (toldApart_of_unqualified h)

theorem vars_identified_in_two_namespaces :
    let calls := [.create (.plain "user"), .create (.plain "core"),
      .intern (.plain "user") (.plain "x") [], .intern (.plain "core") (.plain "x") [],
      .intern (.plain "user") (.plain "x") [(.key "doc", .nil)]]
    let v : Var := ⟨⟨.plain "user", .plain "x"⟩, [(.key "doc", .nil)]⟩
    let w : Var := ⟨⟨.plain "core", .plain "x"⟩, []⟩
    (∀ ns, .create ns ∈ calls → ns.ns = none) ∧ (empty.run calls).Identifies ∧
      (empty.run calls).Maps v ∧ (empty.run calls).Maps w ∧
      (v.beq w ↔ v.id.qualifiedSymbol = w.id.qualifiedSymbol ∧ v.id.ns.ns = w.id.ns.ns) := by
  intro calls v w
  have hcreated : ∀ ns, .create ns ∈ calls → ns.ns = none := by
    simp [calls, Symbol.plain]
  have hv : (empty.run calls).Maps v := ⟨.plain "user", .plain "x", rfl⟩
  have hw : (empty.run calls).Maps w := ⟨.plain "core", .plain "x", rfl⟩
  obtain ⟨hbeq, -, hidentifies⟩ := vars_identified_iff calls
  exact ⟨hcreated, hidentifies hcreated, hv, hw, hbeq v w hv hw⟩

/-- The namespaces `a/b` and `b` have different vars named `x`, both with the symbol `b/x`. -/
theorem vars_confused_across_qualifiers :
    let calls := [.create (.qualified "a" "b"), .create (.plain "b"),
      .intern (.qualified "a" "b") (.plain "x") [], .intern (.plain "b") (.plain "x") []]
    ∃ v w, (empty.run calls).Maps v ∧ (empty.run calls).Maps w ∧
      v.id.qualifiedSymbol = .qualified "b" "x" ∧ w.id.qualifiedSymbol = .qualified "b" "x" ∧
      v.beq w = false ∧ ¬(empty.run calls).Identifies := by
  intro calls
  let v : Var := ⟨⟨.qualified "a" "b", .plain "x"⟩, []⟩
  let w : Var := ⟨⟨.plain "b", .plain "x"⟩, []⟩
  have hv : (empty.run calls).Maps v := ⟨.qualified "a" "b", .plain "x", rfl⟩
  have hw : (empty.run calls).Maps w := ⟨.plain "b", .plain "x", rfl⟩
  have hne : v.beq w = false := by decide
  refine ⟨v, w, hv, hw, rfl, rfl, hne, fun h => ?_⟩
  have heq : v.beq w := (h v w hv hw).mpr rfl
  simp [hne] at heq

end Directory

end LispFront
