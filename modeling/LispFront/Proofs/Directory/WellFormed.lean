import LispFront.Proofs.Directory.History
import LispFront.Proofs.Form.WellFormed

/-!
# Directories of well-formed metadata

A directory keeps the metadata that vars are interned with. If all that calls bring in is
well-formed, then so is what is found in the directory after them.
-/

namespace LispFront

def Call.WellFormed : Call → Prop
  | .intern _ _ metadata => metadata.WellFormed
  | _ => True

namespace Directory

def WellFormed (d : Directory) : Prop :=
  ∀ ns name v, d.var? ns name = some v → v.metadata.WellFormed

namespace WellFormed

theorem empty : Directory.empty.WellFormed := nofun

variable {d d' : Directory} {ns name : Symbol} {n : Namespace} {v : Var} (h : d.WellFormed)
include h

theorem var? (hn : d.find? ns = some n) (hv : n.var? name = some v) : v.metadata.WellFormed :=
  h ns name v (Option.bind_eq_some_iff.mpr ⟨n, hn, hv⟩)

theorem put (key : Symbol) (hn : ∀ x v, n.var? x = some v → v.metadata.WellFormed) :
    (d.put key n).WellFormed := by
  intro ns x v hv
  rw [var?_put] at hv
  split at hv
  · exact hn x v hv
  · exact h ns x v hv

theorem create (ns : Symbol) : (d.create ns).WellFormed := by
  intro ns' name v hv
  rw [var?_create] at hv
  exact h ns' name v hv

theorem addAlias {short target : Symbol} (hd : d.addAlias ns short target = .ok d') :
    d'.WellFormed := by
  obtain ⟨n, hn, rfl⟩ := exists_put_of_addAlias hd
  exact h.put n.name fun x v hv => h.var? hn hv

theorem intern {metadata : FormMap} (hm : metadata.WellFormed)
    (hd : d.intern ns name metadata = .ok (v, d')) : v.metadata.WellFormed ∧ d'.WellFormed := by
  obtain ⟨n, hn, rfl, rfl⟩ := exists_put_of_intern hd
  refine ⟨hm, h.put n.name fun x w hw => ?_⟩
  rw [Namespace.var?_addVar] at hw
  split at hw
  · cases hw
    exact hm
  · exact h.var? hn hw

theorem resolve? {s : Symbol} (hv : d.resolve? ns s = some v) : v.metadata.WellFormed := by
  rw [resolve?_eq] at hv
  obtain ⟨ns', -, hv⟩ := Option.bind_eq_some_iff.mp hv
  exact h ns' _ v hv

theorem after {c : Call} (hc : c.WellFormed) : (d.after c).WellFormed := by
  cases hok : (d.call c).1 with
  | error e => rwa [after_of_error hok]
  | ok _ =>
    cases c with
    | create ns => exact h.create ns
    | addAlias ns short target => exact h.addAlias (call_addAlias_eq_ok hok)
    | intern ns name metadata =>
      obtain ⟨v, hv⟩ := call_intern_eq_ok hok
      exact (h.intern hc hv).2
    | registerClass cls => exact h

theorem run {calls : List Call} (hcalls : ∀ c ∈ calls, c.WellFormed) :
    (d.run calls).WellFormed := by
  induction calls generalizing d with
  | nil => exact h
  | cons c calls ih =>
    obtain ⟨hc, hcalls⟩ := List.forall_mem_cons.mp hcalls
    exact ih (h.after hc) hcalls

end WellFormed

end Directory

end LispFront
